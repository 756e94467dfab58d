import TransparentOffload.SpoaLocks
import TransparentOffload.SpoaWire

set_option autoImplicit false

/- What HAProxy reads from the agent: whole frames one after the other, whatever the pieces
in which they were written and whoever wrote them, and an ACK for each NOTIFY. -/
namespace TransparentOffload

theorem Spop.htonl_ntohl {hdr : Bytes} (four : hdr.length = 4) :
    Spop.htonl (Spop.ntohl hdr) = hdr := by
  match hdr, four with
  | [a, b, c, d], _ =>
    have size (x : UInt8) : x.toNat < 256 := x.toNat_lt
    have back {k : Nat} {x : UInt8} (same : k % 256 = x.toNat) : UInt8.ofNat k = x := by
      rw [← UInt8.toNat_inj, UInt8.toNat_ofNat']
      exact same
    have bounds := And.intro (And.intro (size a) (size b)) (And.intro (size c) (size d))
    simp only [htonl, ntohl, Nat.shiftRight_eq_div_pow, Nat.shiftLeft_eq]
    rw [back (x := a) (by omega), back (x := b) (by omega), back (x := c) (by omega),
      back (x := d) (by omega)]

/-- A frame is a payload behind its length in network order. -/
def spop : Framing UInt8 where
  width := 4
  head := Spop.htonl
  size := Spop.ntohl
  limit := 2 ^ 32 - 1
  positive := by decide
  length_head := fun _ => rfl
  size_head := fun n small => Spop.ntohl_htonl (by omega)

theorem spop_encode (payload : Bytes) : spop.encode payload = Spop.frame payload := rfl

theorem Spop.frame_length (payload : Bytes) : (Spop.frame payload).length = 4 + payload.length :=
  Framing.length_encode (f := spop) payload

namespace Spoa

/-- The payloads of the frames that were sent on a connection. -/
def sentOn (s : Spoa) (c : Nat) : List Bytes :=
  (s.sent.filterMap fun own => if own.1 = c then some (own.2.drop 4) else none).reverse

/-- The payloads that the thread of a connection is through with. -/
def receivedOn (s : Spoa) (c : Nat) : List Bytes :=
  (s.received.filterMap fun own => if own.1 = c then some own.2 else none).reverse

variable {s t : Spoa} {c : Nat}

theorem sentOn_cons {c' : Nat} {payload : Bytes}
    (sent : t.sent = (c', Spop.frame payload) :: s.sent) (c : Nat) :
    t.sentOn c = if c = c' then s.sentOn c ++ [payload] else s.sentOn c := by
  have body : (Spop.frame payload).drop 4 = payload := rfl
  rw [sentOn, sent, List.filterMap_cons, body]
  by_cases same : c = c'
  · rw [if_pos same.symm, if_pos same, List.reverse_cons]
    rfl
  · rw [if_neg (Ne.symm same), if_neg same]
    rfl

theorem receivedOn_cons {c' : Nat} {payload : Bytes}
    (received : t.received = (c', payload) :: s.received) (c : Nat) :
    t.receivedOn c = if c = c' then s.receivedOn c ++ [payload] else s.receivedOn c := by
  rw [receivedOn, received, List.filterMap_cons]
  by_cases same : c = c'
  · rw [if_pos same.symm, if_pos same, List.reverse_cons]
    rfl
  · rw [if_neg (Ne.symm same), if_neg same]
    rfl

/-- What the agent keeps for as long as no connection is closed. -/
structure Sound (s : Spoa) : Prop where
  wired : Wired s
  open_ : Open s
  locked : Locked s

theorem start_sound : Sound start := by
  refine ⟨start_wired, ?_, start_locked⟩
  intro c k live
  cases live

theorem Sound.step (nw : Nat) {a : SpoaAct} (sound : Sound s) (stays : ∀ c, a ≠ .close c)
    (taken : s.step nw a = some t) : Sound t :=
  ⟨step_wired sound.wired taken, step_open sound.open_ stays taken,
    step_locked sound.wired sound.open_ sound.locked stays taken⟩

end Spoa

namespace SpoaReader

/-- What a reader has of a frame that nobody is through with. -/
def taken : SpoaReader → Bytes
  | .header hdr => hdr
  | .payload flen pl => Spop.htonl flen ++ pl
  | .whole pl | .greeting pl => Spop.frame pl
  | .left rest => rest

/-- The frame that a reader has whole. -/
def waiting : SpoaReader → List Bytes
  | .whole pl | .greeting pl => [pl]
  | .header _ | .payload _ _ | .left _ => []

def greets : SpoaReader → Bool
  | .greeting _ => true
  | .header _ | .payload _ _ | .whole _ | .left _ => false

/-- A reader has a part of a frame, or all of one; it leaves without a NOTIFY. -/
def Placed : SpoaReader → Prop
  | .header hdr => hdr.length < 4
  | .payload flen pl => pl.length < flen ∧ flen ≤ Spoa.maxFrame
  | .whole pl => pl.length ≤ Spoa.maxFrame
  | .greeting pl => pl.length ≤ Spoa.maxFrame ∧
      (Spop.parse pl).map Prod.fst = some Spop.ftHaproxyHello
  | .left rest => ∀ rounds, (spop.decode rounds rest).filterMap (Spoa.idsOf Spop.ftNotify) = []

theorem decode_payload {flen : Nat} {pl : Bytes} (part : pl.length < flen)
    (small : flen ≤ Spoa.maxFrame) (rounds : Nat) :
    spop.decode rounds (Spop.htonl flen ++ pl) = [] := by
  apply Framing.decode_cut (f := spop) (n := flen) _ part
  exact Nat.le_trans small (by decide)

/-- A length that no frame may have is followed by nothing that was read. -/
theorem decode_bad {hdr : Bytes} (four : hdr.length = 4)
    (bad : Spop.ntohl hdr = 0 ∨ Spoa.maxFrame < Spop.ntohl hdr) (rounds : Nat) :
    (spop.decode rounds hdr).filterMap (Spoa.idsOf Spop.ftNotify) = [] := by
  have all : hdr.take spop.width = hdr := List.take_of_length_le (Nat.le_of_eq four)
  have none_ : hdr.drop spop.width = [] := List.drop_of_length_le (Nat.le_of_eq four)
  have size : spop.size hdr = Spop.ntohl hdr := rfl
  have width : spop.width = 4 := rfl
  cases rounds with
  | zero => rfl
  | succ rounds =>
    rw [Framing.decode]
    simp only [all, none_, size]
    rcases bad with zero | large
    · -- an empty message has no type
      have rest : hdr.drop (spop.width + 0) = [] := none_
      have short : ([] : Bytes).length < spop.width := by decide
      rw [zero, if_pos (by omega), rest, Framing.decode_short short]
      rfl
    · rw [if_neg (by omega)]
      rfl

end SpoaReader

namespace SpoaWire

variable {s t : SpoaWire} {c : Nat} {payload : Bytes}

/-- The payload of the frame that the owner of a lock is writing. -/
def writing (s : SpoaWire) (c : Nat) : Option Bytes :=
  if (s.readers c).greets then some helloPayload else s.agent.acking c

/-- What the kernel has taken of that frame. -/
def part (s : SpoaWire) (c : Nat) : Bytes :=
  match s.writing c with
  | some payload => (Spop.frame payload).take (s.put c)
  | none => []

/-- A payload that the agent builds. -/
def Built (payload : Bytes) : Prop :=
  payload = helloPayload ∨ ∃ sid fid, payload = Spop.ackPayload sid fid

/-- On the wire there are the frames that were sent, and behind them a part of the one
that is being written. -/
structure Sending (s : SpoaWire) (c : Nat) : Prop where
  tx : (s.socks c).tx = spop.stream (s.agent.sentOn c) ++ s.part c
  put : ∀ payload, s.writing c = some payload → s.put c < (Spop.frame payload).length
  idle : s.writing c = none → s.put c = 0
  built : ∀ payload ∈ s.agent.sentOn c, Built payload

/-- What has arrived is the frames the thread is through with, what it has of another one,
and what it has not yet read. -/
structure Receiving (s : SpoaWire) (c : Nat) : Prop where
  rx : (s.socks c).arrived =
    spop.stream (s.agent.receivedOn c) ++ (s.readers c).taken ++ (s.socks c).rx
  placed : (s.readers c).Placed
  fit : ∀ payload ∈ s.agent.receivedOn c, payload.length ≤ Spoa.maxFrame

theorem Sending.same (sending : Sending s c) (tx : (t.socks c).tx = (s.socks c).tx)
    (put : t.put c = s.put c) (writing : t.writing c = s.writing c)
    (sent : t.agent.sentOn c = s.agent.sentOn c) : Sending t c := by
  have part : t.part c = s.part c := by
    rw [SpoaWire.part, writing, put]
    rfl
  refine ⟨?_, ?_, ?_, ?_⟩
  · rw [tx, sent, part]
    exact sending.tx
  · rw [writing, put]
    exact sending.put
  · rw [writing, put]
    exact sending.idle
  · rw [sent]
    exact sending.built

/-- Nothing of a frame is written before its owner has the lock. -/
theorem Sending.begin (payload : Bytes) (sending : Sending s c)
    (tx : (t.socks c).tx = (s.socks c).tx) (put : t.put c = s.put c)
    (before : s.writing c = none) (writing : t.writing c = some payload)
    (sent : t.agent.sentOn c = s.agent.sentOn c) : Sending t c := by
  have none_ := sending.idle before
  have nothing : t.part c = s.part c := by
    rw [SpoaWire.part, SpoaWire.part, writing, before, put, none_]
    rfl
  refine ⟨?_, ?_, ?_, ?_⟩
  · rw [tx, sent, nothing]
    exact sending.tx
  · intro payload' same
    rw [put, none_, Spop.frame_length]
    omega
  · intro absent
    rw [writing] at absent
    cases absent
  · rw [sent]
    exact sending.built

/-- A piece in the middle of a frame. -/
theorem Sending.piece (sending : Sending s c) {m : Nat} (writing : s.writing c = some payload)
    (still : t.writing c = s.writing c)
    (tx : (t.socks c).tx = (s.socks c).tx ++ ((Spop.frame payload).drop (s.put c)).take m)
    (put : t.put c = s.put c + m) (more : s.put c + m < (Spop.frame payload).length)
    (sent : t.agent.sentOn c = s.agent.sentOn c) : Sending t c := by
  have before : s.part c = (Spop.frame payload).take (s.put c) := by
    rw [SpoaWire.part, writing]
  have after : t.part c = (Spop.frame payload).take (s.put c + m) := by
    rw [SpoaWire.part, still, writing, put]
  refine ⟨?_, ?_, ?_, ?_⟩
  · rw [tx, sending.tx, before, sent, after, List.append_assoc, ← List.take_add]
  · intro payload' same
    rw [still, writing, Option.some.injEq] at same
    rw [put, ← same]
    exact more
  · intro absent
    rw [still, writing] at absent
    cases absent
  · rw [sent]
    exact sending.built

/-- The last piece of a frame. -/
theorem Sending.finish (sending : Sending s c) {m : Nat} (writing : s.writing c = some payload)
    (idle : t.writing c = none)
    (tx : (t.socks c).tx = (s.socks c).tx ++ ((Spop.frame payload).drop (s.put c)).take m)
    (put : t.put c = 0) (last : (Spop.frame payload).length ≤ s.put c + m)
    (built : Built payload) (sent : t.agent.sentOn c = s.agent.sentOn c ++ [payload]) :
    Sending t c := by
  have before : s.part c = (Spop.frame payload).take (s.put c) := by
    rw [SpoaWire.part, writing]
  have after : t.part c = [] := by
    rw [SpoaWire.part, idle]
  refine ⟨?_, ?_, ?_, ?_⟩
  · rw [tx, sending.tx, before, sent, after, List.append_assoc, ← List.take_add,
      List.take_of_length_le last, Framing.stream_snoc, List.append_nil]
    rfl
  · intro payload' some_
    rw [idle] at some_
    cases some_
  · exact fun _ => put
  · intro payload' member
    rw [sent] at member
    rcases List.mem_append.mp member with old | new
    · exact sending.built payload' old
    · rw [List.mem_singleton.mp new]
      exact built

theorem Receiving.same (receiving : Receiving s c)
    (arrived : (t.socks c).arrived = (s.socks c).arrived) (rx : (t.socks c).rx = (s.socks c).rx)
    (reader : t.readers c = s.readers c)
    (received : t.agent.receivedOn c = s.agent.receivedOn c) : Receiving t c := by
  refine ⟨?_, ?_, ?_⟩
  · rw [arrived, received, reader, rx]
    exact receiving.rx
  · rw [reader]
    exact receiving.placed
  · rw [received]
    exact receiving.fit

/-- A frame that the thread has whole is one more that it is through with. -/
theorem Receiving.through (receiving : Receiving s c)
    (arrived : (t.socks c).arrived = (s.socks c).arrived) (rx : (t.socks c).rx = (s.socks c).rx)
    (whole : (s.readers c).taken = Spop.frame payload) (small : payload.length ≤ Spoa.maxFrame)
    (reader : t.readers c = .header [])
    (received : t.agent.receivedOn c = s.agent.receivedOn c ++ [payload]) : Receiving t c := by
  refine ⟨?_, ?_, ?_⟩
  · rw [arrived, receiving.rx, whole, received, reader, rx, Framing.stream_snoc]
    simp [spop_encode, SpoaReader.taken]
  · rw [reader]
    exact Nat.zero_lt_succ 3
  · intro payload' member
    rw [received] at member
    rcases List.mem_append.mp member with old | new
    · exact receiving.fit payload' old
    · rw [List.mem_singleton.mp new]
      exact small

/-- What an answer of `read` brings. -/
def brought : IoRet → Bytes
  | .data bs => bs
  | .err _ | .count _ => []

/-- A thread that goes on with its frame, or leaves its loop. -/
structure Reads (s t : SpoaWire) (c : Nat) (reader : SpoaReader) : Prop where
  socks : t.socks = s.socks
  readers : t.readers = Function.update s.readers c reader
  put : t.put = s.put
  greets : reader.greets = false
  placed : reader.Placed
  agent : t.agent = s.agent ∨ s.agent.leave c = some t.agent

theorem leave_reads {rest : Bytes} (placed : (SpoaReader.left rest).Placed)
    (taken : s.leave c rest = some t) : Reads s t c (.left rest) := by
  obtain ⟨agent, left, rfl⟩ := Option.map_eq_some_iff.mp taken
  exact ⟨rfl, rfl, rfl, rfl, placed, Or.inr left⟩

theorem afterHeader_reads {hdr : Bytes} {r : IoRet} (short : hdr.length < 4)
    (fits : (brought r).length ≤ 4 - hdr.length) (taken : s.afterHeader c hdr r = some t) :
    ∃ reader, Reads s t c reader ∧ reader.taken = hdr ++ brought r := by
  have part : (SpoaReader.left hdr).Placed := by
    intro rounds
    rw [Framing.decode_short (f := spop) short]
    rfl
  cases r with
  | err e => exact ⟨_, leave_reads part taken, (List.append_nil hdr).symm⟩
  | count n => exact ⟨_, leave_reads part taken, (List.append_nil hdr).symm⟩
  | data bs =>
    have together : (hdr ++ bs).length ≤ 4 := by
      rw [brought] at fits
      rw [List.length_append]
      omega
    rw [afterHeader] at taken
    split at taken
    · rename_i nothing
      rw [brought, nothing]
      exact ⟨_, leave_reads part taken, (List.append_nil hdr).symm⟩
    · split at taken
      · rename_i more
        cases taken
        exact ⟨_, ⟨rfl, rfl, rfl, rfl, more, Or.inl rfl⟩, rfl⟩
      · rename_i enough
        have four : (hdr ++ bs).length = 4 := by omega
        dsimp only at taken
        split at taken
        · rename_i bad
          exact ⟨_, leave_reads (SpoaReader.decode_bad four bad) taken, rfl⟩
        · rename_i good
          cases taken
          refine ⟨.payload (Spop.ntohl (hdr ++ bs)) [], ⟨rfl, rfl, rfl, rfl, ?_, Or.inl rfl⟩, ?_⟩
          · show 0 < _ ∧ _
            omega
          · show Spop.htonl _ ++ [] = _
            rw [List.append_nil, Spop.htonl_ntohl four]
            rfl

theorem afterPayload_reads {flen : Nat} {pl : Bytes} {r : IoRet} (part : pl.length < flen)
    (small : flen ≤ Spoa.maxFrame) (fits : (brought r).length ≤ flen - pl.length)
    (taken : s.afterPayload c flen pl r = some t) :
    ∃ reader, Reads s t c reader ∧ reader.taken = Spop.htonl flen ++ pl ++ brought r := by
  have cut : (SpoaReader.left (Spop.htonl flen ++ pl)).Placed := by
    intro rounds
    rw [SpoaReader.decode_payload part small]
    rfl
  cases r with
  | err e => exact ⟨_, leave_reads cut taken, (List.append_nil _).symm⟩
  | count n => exact ⟨_, leave_reads cut taken, (List.append_nil _).symm⟩
  | data bs =>
    have together : (pl ++ bs).length ≤ flen := by
      rw [brought] at fits
      rw [List.length_append]
      omega
    rw [afterPayload] at taken
    split at taken
    · rename_i nothing
      rw [brought, nothing]
      exact ⟨_, leave_reads cut taken, (List.append_nil _).symm⟩
    · split at taken
      · rename_i more
        cases taken
        refine ⟨.payload flen (pl ++ bs), ⟨rfl, rfl, rfl, rfl, ⟨more, small⟩, Or.inl rfl⟩, ?_⟩
        rw [SpoaReader.taken, brought, List.append_assoc]
      · rename_i enough
        have whole : (pl ++ bs).length = flen := by omega
        cases taken
        refine ⟨.whole (pl ++ bs), ⟨rfl, rfl, rfl, rfl, whole.trans_le small, Or.inl rfl⟩, ?_⟩
        rw [SpoaReader.taken, brought, Spop.frame, whole, List.append_assoc]

/-- What a `read` does: bytes go from the socket to the thread. -/
theorem read_spec {out : IoOut} (placed : (s.readers c).Placed) (taken : s.read c out = some t) :
    (s.readers c).greets = false ∧ ∃ socket reader, Reads (s.setSock c socket) t c reader ∧
      socket.tx = (s.socks c).tx ∧ socket.arrived = (s.socks c).arrived ∧
      (s.readers c).taken ++ (s.socks c).rx = reader.taken ++ socket.rx := by
  have moved : ∀ {socket : Socket} {n : Nat} {r : IoRet},
      (s.socks c).realRead n false out = some (socket, r) →
      (brought r).length ≤ n ∧ (s.socks c).rx = brought r ++ socket.rx ∧
        socket.arrived = (s.socks c).arrived ∧ socket.tx = (s.socks c).tx := by
    intro socket n r answer
    rcases Socket.realRead_answer answer with ⟨bs, rfl, fits, rest, arrived, tx⟩ | ⟨⟨e, rfl⟩, rfl⟩
    · exact ⟨fits, rest, arrived, tx⟩
    · exact ⟨Nat.zero_le n, rfl, rfl, rfl⟩
  obtain ⟨k, live, rest⟩ := Option.bind_eq_some_iff.mp taken
  split at rest
  · cases place : s.readers c with
    | header hdr =>
      rw [place] at rest placed
      obtain ⟨⟨socket, r⟩, answer, rest⟩ := Option.bind_eq_some_iff.mp rest
      obtain ⟨fits, bytes, arrived, tx⟩ := moved answer
      obtain ⟨reader, reads, held⟩ := afterHeader_reads placed fits rest
      refine ⟨rfl, socket, reader, reads, tx, arrived, ?_⟩
      rw [bytes, held, ← List.append_assoc]
      rfl
    | payload flen pl =>
      rw [place] at rest placed
      obtain ⟨⟨socket, r⟩, answer, rest⟩ := Option.bind_eq_some_iff.mp rest
      obtain ⟨fits, bytes, arrived, tx⟩ := moved answer
      obtain ⟨reader, reads, held⟩ := afterPayload_reads placed.1 placed.2 fits rest
      refine ⟨rfl, socket, reader, reads, tx, arrived, ?_⟩
      rw [bytes, held, ← List.append_assoc]
      rfl
    | whole pl | greeting pl | left held =>
      rw [place] at rest
      cases rest
  · cases rest

/-- What a thread does with a frame that is not a HELLO, and before `send_agent_hello`. -/
theorem dispatch_spec (taken : s.dispatch c = some t) : ∃ pl, s.readers c = .whole pl ∧
    t.socks = s.socks ∧ t.put = s.put ∧
    ((t.agent = s.agent ∧ s.agent.lockOf c = none ∧
        t.readers = Function.update s.readers c (.greeting pl) ∧
        (Spop.parse pl).map Prod.fst = some Spop.ftHaproxyHello) ∨
      (s.agent.readFrame c pl = some t.agent ∧
        t.readers = Function.update s.readers c (.header []) ∧
        (Spop.parse pl).map Prod.fst ≠ some Spop.ftHaproxyHello)) := by
  unfold dispatch at taken
  split at taken
  · rename_i k pl live place
    split at taken
    · rename_i type ids parsed
      refine ⟨pl, place, ?_⟩
      rw [parsed, Option.map_some]
      split at taken
      · rename_i hello
        split at taken
        · rename_i free
          cases taken
          exact ⟨rfl, rfl, Or.inl ⟨rfl, (Spoa.lockOf_eq live).trans free.1, rfl,
            congrArg some hello⟩⟩
        · cases taken
      · rename_i other
        obtain ⟨agent, read, rfl⟩ := Option.map_eq_some_iff.mp taken
        refine ⟨rfl, rfl, Or.inr ⟨read, rfl, ?_⟩⟩
        simpa using other
    · cases taken
  · cases taken

/-- A piece of a frame goes out; behind the last one `done` follows. -/
theorem writeFrame_spec {m : Nat} {done : SpoaWire → Option SpoaWire}
    (taken : s.writeFrame c m payload done = some t) : ∃ socket,
      socket.tx = (s.socks c).tx ++ ((Spop.frame payload).drop (s.put c)).take m ∧
      socket.arrived = (s.socks c).arrived ∧ socket.rx = (s.socks c).rx ∧
      ((s.put c + m < (Spop.frame payload).length ∧
          t = (s.setSock c socket).setPut c (s.put c + m)) ∨
        ((Spop.frame payload).length ≤ s.put c + m ∧
          done ((s.setSock c socket).setPut c 0) = some t)) := by
  obtain ⟨⟨socket, r⟩, answer, rest⟩ := Option.bind_eq_some_iff.mp taken
  have sent : socket.tx = (s.socks c).tx ++ ((Spop.frame payload).drop (s.put c)).take m ∧
      socket.arrived = (s.socks c).arrived ∧ socket.rx = (s.socks c).rx := by
    rw [Socket.realWrite] at answer
    split at answer
    · cases answer
      exact ⟨rfl, rfl, rfl⟩
    · cases answer
  refine ⟨socket, sent.1, sent.2.1, sent.2.2, ?_⟩
  dsimp only at rest
  split at rest
  · rename_i more
    exact Or.inl ⟨more, (Option.some.inj rest).symm⟩
  · rename_i last
    exact Or.inr ⟨Nat.le_of_not_lt last, rest⟩

end SpoaWire

end TransparentOffload
