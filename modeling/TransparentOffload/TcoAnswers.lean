import TransparentOffload.TcoServer
import TransparentOffload.Lib.Parties

set_option autoImplicit false

/- Both servers write, on each connection, a part of the replies to its whole requests,
in the order of the requests. -/
namespace TransparentOffload.Tco

open Dialogue (Serves Upholds Wire)

/-- A socket as a stream. -/
def wire (k : Socket) : Wire UInt8 := ⟨k.arrived, k.rx, k.tx⟩

section Wire

variable {η : Type} {r : Dialogue.Rule UInt8} {Stands : η → Wire UInt8 → Prop} {count i : Nat}
  {parties : Nat → Option η} {socks socks' : Nat → Socket} {k : Socket} {h h' : η}

theorem wire_others (same : socks' = Function.update socks i k) (j : Nat) (other : j ≠ i) :
    wire (socks' j) = wire (socks j) := by
  rw [same, Function.update_of_ne other]

theorem wire_self (same : socks' = Function.update socks i k) : wire (socks' i) = wire k := by
  rw [same, Function.update_self]

/-- The end of a connection changes nothing that was sent. -/
theorem wire_hangup :
    (fun j => wire (Function.update socks i (socks i).hangup j)) = fun j => wire (socks j) := by
  funext j
  by_cases mine : j = i
  · rw [mine, Function.update_self]
    rfl
  · rw [Function.update_of_ne mine]

/-- Bytes that arrive at one end. -/
theorem upholds_arrive (bs : Bytes)
    (upholds : Upholds r Stands count parties fun j => wire (socks j))
    (kept : ∀ h, Stands h (wire (socks i)) → Stands h (wire ((socks i).arrive bs))) :
    Upholds r Stands count parties
      fun j => wire (Function.update socks i ((socks i).arrive bs) j) := by
  refine upholds.arrive (i := i) bs (wire_others rfl) ?_ ?_
  · rw [Function.update_self]
    rfl
  · intro h live
    rw [Function.update_self]
    exact kept h (upholds.stands live)

/-- One connection has changed, and where its handler stands. -/
theorem upholds_moved (upholds : Upholds r Stands count parties fun j => wire (socks j))
    (live : parties i = some h) (stands : Stands h' (wire k)) :
    Upholds r Stands count (Function.update parties i (some h'))
      fun j => wire (Function.update socks i k j) := by
  refine upholds.moved (i := i) (h := h') ?_ ?_ (Function.update_self ..) ?_
  · rw [live]
    exact Option.some_ne_none h
  · intro j other
    exact ⟨Function.update_of_ne other .., wire_others rfl j other⟩
  · rw [wire_self rfl]
    exact stands

end Wire

def Place.stage : Place → Dialogue.Stage UInt8
  | .reading buf | .offload buf => .reading buf
  | .writing buf put => .writing buf put
  | .ended => .gone

/-- The sequence number after so many requests. -/
def counted (stateful : Bool) (n : Nat) : UInt32 := if stateful then UInt32.ofNat n else 0

/-- What a place says of its buffer and of the sequence number. -/
def Place.Fits (stateful : Bool) (n : Nat) (seq : UInt32) : Place → Prop
  | .reading buf => buf.length < req ∧ seq = counted stateful n
  | .offload buf => buf.length = req ∧ seq = counted stateful n
  | .writing buf _ => buf.length = req ∧ seq = counted stateful (n + 1)
  | .ended => True

/-- A handler at this place serves its connection. -/
def Stands (stateful : Bool) (p : Place) (seq : UInt32) (w : Wire UInt8) : Prop :=
  ∃ n, Serves (rule stateful) w n p.stage ∧ p.Fits stateful n seq

variable {stateful : Bool} {p : Place} {seq : UInt32} {w : Wire UInt8} {k k' : Socket}
  {buf : Bytes} {put i : Nat} {r : IoRet} {out : IoOut}

theorem length_keystream (shift s : UInt32) (b : Bytes) :
    (keystream shift s b).length = b.length := by
  induction b generalizing s with
  | nil => rfl
  | cons first rest ih =>
    rw [keystream, List.length_cons, List.length_cons, ih]

theorem counted_succ (n : Nat) :
    counted stateful (n + 1) = if stateful then counted stateful n + 1 else counted stateful n := by
  cases stateful with
  | false => rfl
  | true =>
    change UInt32.ofNat (n + 1) = UInt32.ofNat n + 1
    rw [UInt32.ofNat_add]
    rfl

/-- A masked request is the reply of its number. -/
theorem masked_eq (buf : Bytes) (n : Nat) :
    masked stateful buf (counted stateful n) =
      ((rule stateful).answer n buf, counted stateful (n + 1)) := by
  rw [counted_succ]
  cases stateful <;> rfl

theorem length_answer (n : Nat) (buf : Bytes) :
    ((rule stateful).answer n buf).length = buf.length := by
  cases stateful with
  | false => exact length_keystream ..
  | true =>
    change (seqmask (transform buf) _).length = _
    rw [seqmask, length_keystream, transform, length_keystream]

/-- A new connection is at the start of its first request. -/
theorem Stands.fresh (serves : Serves (rule stateful) w 0 (.reading [])) :
    Stands stateful (.reading []) 0 w := by
  refine ⟨0, serves, by decide, ?_⟩
  cases stateful <;> rfl

theorem Stands.gone (stands : Stands stateful p seq w) :
    ∃ n, Serves (rule stateful) w n .gone := by
  obtain ⟨n, serves, _⟩ := stands
  exact ⟨n, serves.quit⟩

theorem Stands.tx_isPrefix (stands : Stands stateful p seq w) :
    w.tx <+: (rule stateful).owed w.arrived := by
  obtain ⟨n, serves, _⟩ := stands
  exact serves.tx_isPrefix

/-- A handler that waits in `read` has written everything. -/
theorem Stands.all_written (stands : Stands stateful (.reading buf) seq w) (unread : w.rx = []) :
    w.tx = replies stateful w.arrived := by
  obtain ⟨n, serves, short, _⟩ := stands
  exact serves.all_answered unread short

theorem Stands.arrive (stands : Stands stateful p seq (wire k)) (bs : Bytes) :
    Stands stateful p seq (wire (k.arrive bs)) := by
  obtain ⟨n, serves, fits⟩ := stands
  exact ⟨n, serves.arrive bs, fits⟩

/-- The next bytes of a request, or an answer that changes nothing. -/
theorem Stands.afterRead (stands : Stands stateful (.reading buf) seq (wire k))
    (answer : k.realRead (req - buf.length) false out = some (k', r)) :
    Stands stateful .ended seq (wire k') ∧
      (∀ bs, r = .data bs → (buf ++ bs).length < req →
        Stands stateful (.reading (buf ++ bs)) seq (wire k')) ∧
      (∀ bs, r = .data bs → ¬ (buf ++ bs).length < req →
        Stands stateful (.offload (buf ++ bs)) seq (wire k')) ∧
      (∀ e, r = .err e → Stands stateful (.reading buf) seq (wire k')) := by
  obtain ⟨n, serves, short, number⟩ := stands
  rcases Socket.realRead_answer answer with ⟨bs, rfl, size, rx, arrived, tx⟩ | ⟨⟨e, rfl⟩, rfl⟩
  · have total : buf.length + bs.length ≤ req := by omega
    have next := serves.read rx total
    have same : (⟨(wire k).arrived, k'.rx, (wire k).tx⟩ : Wire UInt8) = wire k' := by
      unfold wire
      rw [arrived, tx]
    rw [same] at next
    refine ⟨⟨n, next.quit, trivial⟩, ?_, ?_, nofun⟩
    · intro bs' equal less
      cases equal
      exact ⟨n, next, less, number⟩
    · intro bs' equal full
      cases equal
      rw [List.length_append] at full
      refine ⟨n, next, ?_, number⟩
      rw [List.length_append]
      omega
  · exact ⟨⟨n, serves.quit, trivial⟩, nofun, nofun, fun _ _ => ⟨n, serves, short, number⟩⟩

/-- The offload of a whole request, and the mask of its number. -/
theorem Stands.afterOffload (stands : Stands stateful (.offload buf) seq w) :
    Stands stateful (.writing (masked stateful buf seq).1 0) (masked stateful buf seq).2 w := by
  obtain ⟨n, serves, full, number⟩ := stands
  rw [number, masked_eq]
  refine ⟨n, serves.turn full, ?_, rfl⟩
  rw [length_answer]
  exact full

/-- The next bytes of a reply, or an answer that changes nothing. -/
theorem Stands.afterWrite (stands : Stands stateful (.writing buf put) seq (wire k))
    (answer : k.realWrite (buf.drop put) false out = some (k', r)) :
    Stands stateful .ended seq (wire k') ∧
      (∀ m, r = .count m → Stands stateful (.writing buf (put + m)) seq (wire k')) ∧
      (∀ m, r = .count m → ¬ put + m < req → Stands stateful (.reading []) seq (wire k')) ∧
      (∀ e, r = .err e → Stands stateful (.writing buf put) seq (wire k')) := by
  obtain ⟨n, serves, full, number⟩ := stands
  rcases Socket.realWrite_answer answer with ⟨m, rfl, _, tx, arrived, rx⟩ | ⟨⟨e, rfl⟩, rfl⟩
  · have next := serves.write m
    have same : (⟨(wire k).arrived, (wire k).rx, (wire k).tx ++ (buf.drop put).take m⟩ :
        Wire UInt8) = wire k' := by
      unfold wire
      rw [arrived, rx, tx]
    rw [same] at next
    refine ⟨⟨n, next.quit, trivial⟩, ?_, ?_, nofun⟩
    · intro m' equal
      cases equal
      exact ⟨n, next, full, number⟩
    · intro m' equal rest
      cases equal
      exact ⟨n + 1, next.done (by omega), by decide, number⟩
  · exact ⟨⟨n, serves.quit, trivial⟩, nofun, nofun, fun _ _ => ⟨n, serves, full, number⟩⟩

namespace Coro

variable {s t : Server} {c c' : Conn}

def Conn.Stands (stateful : Bool) (c : Conn) (w : Wire UInt8) : Prop :=
  Tco.Stands stateful c.place c.seq w

/-- Every connection is served by its fiber, if it has one. -/
def Sound (stateful : Bool) (s : Server) : Prop :=
  Upholds (rule stateful) (Conn.Stands stateful) s.nconns s.conns fun i => wire (s.socks i)

/-- One connection has changed. -/
theorem Sound.moved (sound : Sound stateful s) (live : s.conns i = some c)
    (conns : t.conns = Function.update s.conns i (some c'))
    (socks : t.socks = Function.update s.socks i k) (nconns : t.nconns = s.nconns)
    (stands : Stands stateful c'.place c'.seq (wire k)) : Sound stateful t := by
  unfold Sound
  rw [conns, socks, nconns]
  exact upholds_moved sound live stands

theorem Sound.stands (sound : Sound stateful s) (live : s.conns i = some c) :
    Stands stateful c.place c.seq (wire (s.socks i)) := Upholds.stands sound live

theorem Sound.tx_isPrefix (sound : Sound stateful s) (i : Nat) :
    (s.socks i).tx <+: replies stateful (s.socks i).arrived :=
  Upholds.tx_isPrefix sound (fun _ _ stands => Tco.Stands.tx_isPrefix stands) i

/-- What the dispatcher does to a connection does not touch its fiber. -/
theorem Sound.aside (sound : Sound stateful s) (live : s.conns i = some c)
    (conns : t.conns = Function.update s.conns i (some c')) (socks : t.socks = s.socks)
    (nconns : t.nconns = s.nconns) (place : c'.place = c.place) (seq : c'.seq = c.seq) :
    Sound stateful t := by
  refine sound.moved (k := s.socks i) live conns ?_ nconns ?_
  · rw [socks, Function.update_eq_self]
  · rw [place, seq]
    exact sound.stands live

theorem afterRead_sound (sound : Sound stateful s) (live : s.conns i = some c)
    (place : c.place = .reading buf)
    (answer : (s.socks i).realRead (req - buf.length) false out = some (k, r)) :
    Sound stateful ((s.setSock i k).afterRead i c buf r) := by
  have stands := sound.stands live
  rw [place] at stands
  obtain ⟨gone, more, full, same⟩ := stands.afterRead answer
  unfold Server.afterRead
  cases r with
  | data bs =>
    dsimp only
    split
    · exact sound.moved live rfl rfl rfl gone
    · split
      · rename_i less
        exact sound.moved live rfl rfl rfl (more bs rfl less)
      · rename_i whole
        exact sound.moved live rfl rfl rfl (full bs rfl whole)
  | err e =>
    dsimp only
    split
    · refine sound.moved live rfl rfl rfl ?_
      dsimp only
      rw [place]
      exact same e rfl
    · exact sound.moved live rfl rfl rfl gone
  | count n => exact sound.moved live rfl rfl rfl gone

theorem afterWrite_sound (sound : Sound stateful s) (live : s.conns i = some c)
    (place : c.place = .writing buf put)
    (answer : (s.socks i).realWrite (buf.drop put) false out = some (k, r)) :
    Sound stateful ((s.setSock i k).afterWrite i c buf put r) := by
  have stands := sound.stands live
  rw [place] at stands
  obtain ⟨gone, more, done, same⟩ := stands.afterWrite answer
  unfold Server.afterWrite
  cases r with
  | count n =>
    dsimp only
    split
    · exact sound.moved live rfl rfl rfl (more n rfl)
    · rename_i rest
      exact sound.moved live rfl rfl rfl (done n rfl rest)
  | err e =>
    dsimp only
    split
    · refine sound.moved live rfl rfl rfl ?_
      dsimp only
      rw [place]
      exact same e rfl
    · exact sound.moved live rfl rfl rfl gone
  | data bs => exact sound.moved live rfl rfl rfl gone

theorem fiber_sound (sound : Sound stateful s) (live : s.conns i = some c)
    (taken : s.fiber stateful i c out = some t) : Sound stateful t := by
  unfold Server.fiber at taken
  split at taken
  · rename_i buf place
    obtain ⟨⟨k, r⟩, answer, rfl⟩ := Option.map_eq_some_iff.mp taken
    exact afterRead_sound sound live place answer
  · rename_i buf place
    rw [Option.some.injEq] at taken
    subst taken
    have stands := sound.stands live
    rw [place] at stands
    refine sound.moved live rfl ?_ rfl stands.afterOffload
    exact (Function.update_eq_self i s.socks).symm
  · rename_i buf put place
    obtain ⟨⟨k, r⟩, answer, rfl⟩ := Option.map_eq_some_iff.mp taken
    exact afterWrite_sound sound live place answer
  · cases taken

theorem accept_sound {fd : Fd} (sound : Sound stateful s) (taken : s.accept fd = some t) :
    Sound stateful t := by
  unfold Server.accept at taken
  split at taken
  · split at taken <;> rw [Option.some.injEq] at taken <;> subst taken
    · have same : (fun j => wire (Function.update s.socks s.nconns (s.socks s.nconns).setnb j)) =
          fun j => wire (s.socks j) := by
        funext j
        by_cases mine : j = s.nconns
        · rw [mine, Function.update_self]
          rfl
        · rw [Function.update_of_ne mine]
      unfold Sound
      dsimp only
      rw [same]
      exact Upholds.accepted sound fun _ serves => .fresh serves
    · exact sound
  · cases taken

theorem event_sound {fd : Fd} (sound : Sound stateful s) (taken : s.event fd = some t) :
    Sound stateful t := by
  unfold Server.event at taken
  split at taken
  · dsimp only at taken
    split at taken
    · rename_i c live
      split at taken <;> rw [Option.some.injEq] at taken <;> subst taken
      · exact sound.aside live rfl rfl rfl rfl rfl
      · exact sound
    · rw [Option.some.injEq] at taken
      exact taken ▸ sound
  · cases taken

theorem turn_sound (sound : Sound stateful s) (taken : s.turn stateful out = some t) :
    Sound stateful t := by
  unfold Server.turn at taken
  split at taken
  · rename_i i pc
    rw [Option.some.injEq] at taken
    subst taken
    unfold Server.offloads
    split
    · split
      · rename_i c live
        split
        · exact sound.aside live rfl rfl rfl rfl rfl
        · exact sound
      · exact sound
    · exact sound
  · rw [Option.some.injEq] at taken
    exact taken ▸ sound
  · rename_i i pc
    rw [Option.some.injEq] at taken
    subst taken
    unfold Server.run
    split
    · split
      · split <;> exact sound
      · exact sound
    · exact sound
  · obtain ⟨c, live, ran⟩ := Option.bind_eq_some_iff.mp taken
    exact fiber_sound sound live ran
  · rename_i i pc
    rw [Option.some.injEq] at taken
    subst taken
    unfold Server.back
    split
    · split
      · exact Upholds.left sound fun _ live => (sound.stands live).gone
      · exact sound
    · exact sound

theorem arrive_sound (bs : Bytes) (sound : Sound stateful s) :
    Sound stateful (s.setSock i ((s.socks i).arrive bs)) :=
  upholds_arrive bs sound fun _ stands => Tco.Stands.arrive stands bs

theorem hangup_sound (sound : Sound stateful s) :
    Sound stateful (s.setSock i (s.socks i).hangup) := by
  change Upholds (rule stateful) (Conn.Stands stateful) s.nconns s.conns
    fun j => wire (Function.update s.socks i (s.socks i).hangup j)
  rw [wire_hangup]
  exact sound

theorem step_sound {a : TcoAct} (sound : Sound stateful s)
    (taken : step stateful s a = some t) : Sound stateful t := by
  cases a with
  | arrive i bs =>
    rw [step, Option.some.injEq] at taken
    exact taken ▸ arrive_sound bs sound
  | hangup i =>
    rw [step, Option.some.injEq] at taken
    exact taken ▸ hangup_sound sound
  | device slot =>
    rw [step, Option.some.injEq] at taken
    exact taken ▸ sound
  | accept fd => exact accept_sound sound taken
  | event fd => exact event_sound sound taken
  | turn i out => exact turn_sound sound taken

theorem init_sound : Sound stateful .init := Upholds.start

theorem run_sound {acts : List TcoAct}
    (reached : Machine.run (step stateful) .init acts = some s) : Sound stateful s :=
  Machine.invariant_reached (fun _ _ _ sound taken => step_sound sound taken) init_sound reached

end Coro

namespace Block

variable {s t : Server} {h h' : Thread}

def Thread.Stands (stateful : Bool) (h : Thread) (w : Wire UInt8) : Prop :=
  Tco.Stands stateful h.place h.seq w

/-- Every connection is served by its thread, if it has one. -/
def Sound (stateful : Bool) (s : Server) : Prop :=
  Upholds (rule stateful) (Thread.Stands stateful) s.accepted s.threads fun i => wire (s.socks i)

/-- One thread has moved. -/
theorem Sound.moved (sound : Sound stateful s) (live : s.threads i = some h)
    (threads : t.threads = Function.update s.threads i (some h'))
    (socks : t.socks = Function.update s.socks i k) (accepted : t.accepted = s.accepted)
    (stands : Stands stateful h'.place h'.seq (wire k)) : Sound stateful t := by
  unfold Sound
  rw [threads, socks, accepted]
  exact upholds_moved sound live stands

theorem Sound.stands (sound : Sound stateful s) (live : s.threads i = some h) :
    Stands stateful h.place h.seq (wire (s.socks i)) := Upholds.stands sound live

theorem Sound.tx_isPrefix (sound : Sound stateful s) (i : Nat) :
    (s.socks i).tx <+: replies stateful (s.socks i).arrived :=
  Upholds.tx_isPrefix sound (fun _ _ stands => Tco.Stands.tx_isPrefix stands) i

theorem afterRead_sound (sound : Sound stateful s) (live : s.threads i = some h)
    (place : h.place = .reading buf)
    (answer : (s.socks i).realRead (req - buf.length) false out = some (k, r)) :
    Sound stateful ((s.setSock i k).afterRead i h buf r) := by
  have stands := sound.stands live
  rw [place] at stands
  obtain ⟨gone, more, full, _⟩ := stands.afterRead answer
  unfold Server.afterRead
  cases r with
  | data bs =>
    dsimp only
    split
    · exact sound.moved live rfl rfl rfl gone
    · split
      · rename_i less
        exact sound.moved live rfl rfl rfl (more bs rfl less)
      · rename_i whole
        exact sound.moved live rfl rfl rfl (full bs rfl whole)
  | err | count => exact sound.moved live rfl rfl rfl gone

theorem afterWrite_sound (sound : Sound stateful s) (live : s.threads i = some h)
    (place : h.place = .writing buf put)
    (answer : (s.socks i).realWrite (buf.drop put) false out = some (k, r)) :
    Sound stateful ((s.setSock i k).afterWrite i h buf put r) := by
  have stands := sound.stands live
  rw [place] at stands
  obtain ⟨gone, more, done, _⟩ := stands.afterWrite answer
  unfold Server.afterWrite
  cases r with
  | count n =>
    dsimp only
    split
    · exact sound.moved live rfl rfl rfl gone
    · split
      · exact sound.moved live rfl rfl rfl (more n rfl)
      · rename_i rest
        exact sound.moved live rfl rfl rfl (done n rfl rest)
  | err | data => exact sound.moved live rfl rfl rfl gone

theorem thread_sound (sound : Sound stateful s) (live : s.threads i = some h)
    (taken : s.thread stateful i h out = some t) : Sound stateful t := by
  unfold Server.thread at taken
  split at taken
  · rename_i buf place
    obtain ⟨⟨k, r⟩, answer, rfl⟩ := Option.map_eq_some_iff.mp taken
    exact afterRead_sound sound live place answer
  · rename_i buf place
    split at taken <;> rw [Option.some.injEq] at taken <;> subst taken
    · have stands := sound.stands live
      rw [place] at stands
      refine sound.moved live rfl ?_ rfl stands.afterOffload
      exact (Function.update_eq_self i s.socks).symm
    · exact sound
  · rename_i buf put place
    obtain ⟨⟨k, r⟩, answer, rfl⟩ := Option.map_eq_some_iff.mp taken
    exact afterWrite_sound sound live place answer
  · cases taken

theorem arrive_sound (bs : Bytes) (sound : Sound stateful s) :
    Sound stateful (s.setSock i ((s.socks i).arrive bs)) :=
  upholds_arrive bs sound fun _ stands => Tco.Stands.arrive stands bs

theorem hangup_sound (sound : Sound stateful s) :
    Sound stateful (s.setSock i (s.socks i).hangup) := by
  change Upholds (rule stateful) (Thread.Stands stateful) s.accepted s.threads
    fun j => wire (Function.update s.socks i (s.socks i).hangup j)
  rw [wire_hangup]
  exact sound

theorem step_sound {a : TcoAct} (sound : Sound stateful s)
    (taken : step stateful s a = some t) : Sound stateful t := by
  cases a with
  | arrive i bs =>
    rw [step, Option.some.injEq] at taken
    exact taken ▸ arrive_sound bs sound
  | hangup i =>
    rw [step, Option.some.injEq] at taken
    exact taken ▸ hangup_sound sound
  | device slot =>
    rw [step, Option.some.injEq] at taken
    exact taken ▸ sound
  | accept fd =>
    rw [step, Option.some.injEq] at taken
    subst taken
    exact Upholds.accepted sound fun _ serves => .fresh serves
  | event fd => cases taken
  | turn i out =>
    obtain ⟨h, live, ran⟩ := Option.bind_eq_some_iff.mp taken
    exact thread_sound sound live ran

theorem init_sound : Sound stateful .init := Upholds.start

theorem run_sound {acts : List TcoAct}
    (reached : Machine.run (step stateful) .init acts = some s) : Sound stateful s :=
  Machine.invariant_reached (fun _ _ _ sound taken => step_sound sound taken) init_sound reached

end Block

/-- At every moment of every run of either server, what is written on a connection is a
part of the replies to its whole requests, in their order; and a handler that waits for
input with none unread has written them all. -/
theorem both_servers_reply_in_order (stateful : Bool) :
    (∀ acts s, Machine.run (Coro.step stateful) .init acts = some s → ∀ i,
      (s.socks i).tx <+: replies stateful (s.socks i).arrived ∧
      ∀ c buf, s.conns i = some c → c.place = .reading buf → (s.socks i).rx = [] →
        (s.socks i).tx = replies stateful (s.socks i).arrived) ∧
    (∀ acts s, Machine.run (Block.step stateful) .init acts = some s → ∀ i,
      (s.socks i).tx <+: replies stateful (s.socks i).arrived ∧
      ∀ h buf, s.threads i = some h → h.place = .reading buf → (s.socks i).rx = [] →
        (s.socks i).tx = replies stateful (s.socks i).arrived) := by
  constructor
  · intro acts s reached i
    have sound := Coro.run_sound reached
    refine ⟨sound.tx_isPrefix i, ?_⟩
    intro c buf live place unread
    have stands := sound.stands live
    rw [place] at stands
    exact stands.all_written unread
  · intro acts s reached i
    have sound := Block.run_sound reached
    refine ⟨sound.tx_isPrefix i, ?_⟩
    intro h buf live place unread
    have stands := sound.stands live
    rw [place] at stands
    exact stands.all_written unread

def go (out : IoOut) : TcoAct := .turn 0 out

/-- A request in two fragments, its offload, and a short write of its reply. -/
def oneRequest : List TcoAct :=
  [.arrive 0 (List.replicate req 7), go .again, .accept 5, go .again, go .again, go (.part 100),
    go (.part 156), go .again, go .again, .device 0, go .again, go .again, .event 5, go .again,
    go .again, go .again, go (.part 200)]

/-- The same for the thread of the connection. -/
def oneRequestBlocking : List TcoAct :=
  [.arrive 0 (List.replicate req 7), .accept 5, go (.part 100), go (.part 156), go .again,
    .device 5, go .again, go (.part 200)]

/-- Where the two runs end. -/
def afterRequest : Coro.Server :=
  (Machine.run (Coro.step true) .init oneRequest).get (by decide +kernel)

def afterRequestBlocking : Block.Server :=
  (Machine.run (Block.step true) .init oneRequestBlocking).get (by decide +kernel)

theorem oneRequest_replied :
    ((afterRequest.socks 0).tx.length = 200 ∧
      (afterRequest.socks 0).tx <+: replies true (afterRequest.socks 0).arrived) ∧
    (afterRequestBlocking.socks 0).tx.length = 200 ∧
      (afterRequestBlocking.socks 0).tx <+:
        replies true (afterRequestBlocking.socks 0).arrived := by
  have coro : Machine.run (Coro.step true) .init oneRequest = some afterRequest :=
    (Option.some_get _).symm
  have block : Machine.run (Block.step true) .init oneRequestBlocking = some afterRequestBlocking :=
    (Option.some_get _).symm
  refine ⟨⟨by decide +kernel, ?_⟩, by decide +kernel, ?_⟩
  · exact ((both_servers_reply_in_order true).1 oneRequest _ coro 0).1
  · exact ((both_servers_reply_in_order true).2 oneRequestBlocking _ block 0).1

end TransparentOffload.Tco
