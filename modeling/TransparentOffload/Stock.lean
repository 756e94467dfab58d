import TransparentOffload.Lib.Chunks
import TransparentOffload.Lib.Run
import TransparentOffload.Servers

set_option autoImplicit false

/- `conn_thread` as a thread of its own, on a blocking socket and with the
synchronous `accel_encrypt`: what the server writes without the runtime. -/
namespace TransparentOffload.ConnServer

/-- What happens to a stock thread: its peer sends or hangs up, or its own next
call returns. -/
inductive StockAct
  | arrive (bs : Bytes)
  | hangup
  | turn (out : IoOut)
  deriving DecidableEq, Repr

def stockStep (transform : Bytes → Bytes) : Conn × Socket → StockAct → Option (Conn × Socket)
  | (t, k), .arrive bs => some (t, k.arrive bs)
  | (t, k), .hangup => some (t, k.hangup)
  | (t, k), .turn out =>
    match connThread t with
    | .io op _ next => (op.real k out).map fun answer => (next answer.2, answer.1)
    | .accelEncrypt buf next => some (next (transform buf), k)
    | .close _ next => some (next, k)
    | _ => none

/-- The thread of the connection `fd` before its first call. -/
def stockInit (fd : Fd) : Conn × Socket := (.reading fd [], .fresh)

/-- A stock run of the connection `fd` leads to this thread and this socket. -/
def StockReach (transform : Bytes → Bytes) (fd : Fd) (t : Conn) (k : Socket) : Prop :=
  ∃ acts, Machine.run (stockStep transform) (stockInit fd) acts = some (t, k)

namespace StockReach

variable {transform : Bytes → Bytes} {fd : Fd} {t t' : Conn} {k k' : Socket}

theorem init (transform : Bytes → Bytes) (fd : Fd) :
    StockReach transform fd (.reading fd []) .fresh :=
  ⟨[], rfl⟩

theorem next {a : StockAct} (reached : StockReach transform fd t k)
    (taken : stockStep transform (t, k) a = some (t', k')) : StockReach transform fd t' k' := by
  obtain ⟨acts, ran⟩ := reached
  exact ⟨acts ++ [a], (Machine.run_snoc ran a).trans taken⟩

end StockReach

/-- The bytes `conn_thread` owes its peer: the transform of each whole request. -/
def responses (transform : Bytes → Bytes) (arrived : Bytes) : Bytes :=
  (Chunks.complete req arrived).flatMap transform

theorem req_pos : 0 < req := by decide

/-- More input only adds responses. -/
theorem responses_append (transform : Bytes → Bytes) (arrived more : Bytes) :
    responses transform arrived <+: responses transform (arrived ++ more) := by
  obtain ⟨rest, split⟩ := Chunks.complete_append req_pos arrived more
  refine ⟨rest.flatMap transform, ?_⟩
  unfold responses
  rw [← split, List.flatMap_append]

/-- Where `conn_thread` stands in its stream: the requests it has served, and the
part of the current one that it holds. -/
def Standing (transform : Bytes → Bytes) (t : Conn) (k : Socket) (served : List Bytes) : Prop :=
  match t with
  | .reading _ buf => k.arrived = served.flatten ++ (buf ++ k.rx) ∧ buf.length < req ∧
      k.tx = served.flatMap transform
  | .encrypting _ buf => k.arrived = served.flatten ++ (buf ++ k.rx) ∧ buf.length = req ∧
      k.tx = served.flatMap transform
  | .writing _ buf put => ∃ request : Bytes, k.arrived = served.flatten ++ (request ++ k.rx) ∧
      request.length = req ∧ buf = transform request ∧ put < req ∧
      k.tx = served.flatMap transform ++ buf.take put
  | .closing _ | .returned => k.tx <+: responses transform k.arrived

/-- The invariant of a stock thread. -/
def Serves (transform : Bytes → Bytes) (at_ : Conn × Socket) : Prop :=
  ∃ served : List Bytes, (∀ request ∈ served, request.length = req) ∧
    Standing transform at_.1 at_.2 served

section Serving

variable {transform : Bytes → Bytes} {k : Socket} {served : List Bytes}

/-- The responses to the served requests come first. -/
theorem served_isPrefix (whole : ∀ request ∈ served, request.length = req) {rest : Bytes}
    (arrived : k.arrived = served.flatten ++ rest) :
    served.flatMap transform <+: responses transform k.arrived := by
  refine ⟨responses transform rest, ?_⟩
  unfold responses
  rw [arrived, Chunks.complete_blocks req_pos whole, List.flatMap_append]

/-- And a part of the response to the next request comes after them. -/
theorem partial_isPrefix (whole : ∀ request ∈ served, request.length = req) {request rest : Bytes}
    (size : request.length = req) (arrived : k.arrived = served.flatten ++ (request ++ rest))
    (put : Nat) :
    served.flatMap transform ++ (transform request).take put <+:
      responses transform k.arrived := by
  refine ⟨(transform request).drop put ++ responses transform rest, ?_⟩
  unfold responses
  have joined : (transform request).take put ++ ((transform request).drop put ++
      (Chunks.complete req rest).flatMap transform) =
      transform request ++ (Chunks.complete req rest).flatMap transform := by
    rw [← List.append_assoc, List.take_append_drop]
  rw [arrived, Chunks.complete_blocks req_pos whole, Chunks.complete_block req_pos size,
    List.flatMap_append, List.flatMap_cons, List.append_assoc, joined]

/-- Wherever the thread stands, what it has written is a part of its responses. -/
theorem Serves.tx_isPrefix {t : Conn} (serves : Serves transform (t, k)) :
    k.tx <+: responses transform k.arrived := by
  obtain ⟨served, whole, standing⟩ := serves
  cases t with
  | reading fd buf =>
    obtain ⟨arrived, _, tx⟩ := standing
    rw [tx]
    exact served_isPrefix whole arrived
  | encrypting fd buf =>
    obtain ⟨arrived, _, tx⟩ := standing
    rw [tx]
    exact served_isPrefix whole arrived
  | writing fd buf put =>
    obtain ⟨request, arrived, size, rfl, _, tx⟩ := standing
    rw [tx]
    exact partial_isPrefix whole size arrived put
  | closing | returned => exact standing

theorem arrive_serves {t : Conn} (bs : Bytes) (serves : Serves transform (t, k)) :
    Serves transform (t, k.arrive bs) := by
  obtain ⟨served, whole, standing⟩ := serves
  refine ⟨served, whole, ?_⟩
  have later : ∀ part : Bytes, k.arrived = served.flatten ++ (part ++ k.rx) →
      (k.arrive bs).arrived = served.flatten ++ (part ++ (k.arrive bs).rx) := by
    intro part arrived
    show k.arrived ++ bs = _ ++ (part ++ (k.rx ++ bs))
    rw [arrived]
    simp only [List.append_assoc]
  cases t with
  | reading fd buf =>
    obtain ⟨arrived, size, tx⟩ := standing
    exact ⟨later buf arrived, size, tx⟩
  | encrypting fd buf =>
    obtain ⟨arrived, size, tx⟩ := standing
    exact ⟨later buf arrived, size, tx⟩
  | writing fd buf put =>
    obtain ⟨request, arrived, size, same, inside, tx⟩ := standing
    exact ⟨request, later request arrived, size, same, inside, tx⟩
  | closing | returned =>
    exact List.IsPrefix.trans standing (responses_append transform k.arrived bs)

/-- `read` in `conn_thread`: the buffer grows by what comes next in the stream. -/
theorem afterRead_serves {fd : Fd} {buf : Bytes} {k' : Socket} {out : IoOut} {r : IoRet}
    (serves : Serves transform (.reading fd buf, k))
    (answer : k.realRead (req - buf.length) false out = some (k', r)) :
    Serves transform (afterRead fd buf r, k') := by
  obtain ⟨served, whole, arrived, short, tx⟩ := serves
  rcases Socket.realRead_answer answer with
    ⟨bs, rfl, size, rx, sameArrived, sameTx⟩ | ⟨⟨e, rfl⟩, rfl⟩
  · have stream : k'.arrived = served.flatten ++ (buf ++ bs ++ k'.rx) := by
      rw [sameArrived, arrived, rx, List.append_assoc]
    have total : (buf ++ bs).length ≤ req := by
      rw [List.length_append]
      omega
    unfold afterRead
    dsimp only
    by_cases ended : bs = []
    · rw [if_pos ended]
      refine ⟨served, whole, ?_⟩
      show k'.tx <+: _
      rw [sameTx, tx]
      exact served_isPrefix whole stream
    · rw [if_neg ended]
      by_cases more : (buf ++ bs).length < req
      · rw [if_pos more]
        exact ⟨served, whole, stream, more, sameTx.trans tx⟩
      · rw [if_neg more]
        have full : (buf ++ bs).length = req := by omega
        exact ⟨served, whole, stream, full, sameTx.trans tx⟩
  · refine ⟨served, whole, ?_⟩
    show k'.tx <+: _
    rw [tx]
    exact served_isPrefix whole arrived

/-- `write` in `conn_thread`: the response goes on where it stopped. -/
theorem afterWrite_serves {fd : Fd} {buf : Bytes} {put : Nat} {k' : Socket} {out : IoOut}
    {r : IoRet} (inPlace : ∀ bs, (transform bs).length = bs.length)
    (serves : Serves transform (.writing fd buf put, k))
    (answer : k.realWrite (buf.drop put) false out = some (k', r)) :
    Serves transform (afterWrite fd buf put r, k') := by
  obtain ⟨served, whole, request, arrived, size, rfl, inside, tx⟩ := serves
  have length : (transform request).length = req := by rw [inPlace, size]
  rcases Socket.realWrite_answer answer with
    ⟨n, rfl, bound, more, sameArrived, sameRx⟩ | ⟨⟨e, rfl⟩, rfl⟩
  · rw [List.length_drop, length] at bound
    have sent : k'.tx = served.flatMap transform ++ (transform request).take (put + n) := by
      rw [more, tx, List.append_assoc, List.take_add]
    have stream : k'.arrived = served.flatten ++ (request ++ k'.rx) := by
      rw [sameArrived, arrived, sameRx]
    unfold afterWrite
    dsimp only
    by_cases stuck : n = 0
    · rw [if_pos stuck]
      refine ⟨served, whole, ?_⟩
      show k'.tx <+: _
      rw [sent]
      exact partial_isPrefix whole size stream (put + n)
    · rw [if_neg stuck]
      by_cases rest : put + n < req
      · rw [if_pos rest]
        exact ⟨served, whole, request, stream, size, rfl, rest, sent⟩
      · rw [if_neg rest]
        have all : (transform request).take (put + n) = transform request := by
          apply List.take_of_length_le
          omega
        refine ⟨served ++ [request], ?_, ?_, req_pos, ?_⟩
        · intro other member
          rcases List.mem_append.mp member with old | new
          · exact whole other old
          · exact List.mem_singleton.mp new ▸ size
        · rw [stream]
          simp
        · rw [sent, all]
          simp
  · refine ⟨served, whole, ?_⟩
    show k'.tx <+: _
    rw [tx]
    exact partial_isPrefix whole size arrived put

end Serving

theorem stockStep_serves {transform : Bytes → Bytes}
    (inPlace : ∀ bs, (transform bs).length = bs.length) {at_ next : Conn × Socket}
    {a : StockAct} (serves : Serves transform at_)
    (taken : stockStep transform at_ a = some next) : Serves transform next := by
  obtain ⟨t, k⟩ := at_
  cases a with
  | arrive bs =>
    rw [stockStep, Option.some.injEq] at taken
    exact taken ▸ arrive_serves bs serves
  | hangup =>
    rw [stockStep, Option.some.injEq] at taken
    exact taken ▸ serves
  | turn out =>
    rw [stockStep] at taken
    cases t with
    | reading fd buf =>
      obtain ⟨⟨k', r⟩, answer, rfl⟩ := Option.map_eq_some_iff.mp taken
      exact afterRead_serves serves answer
    | encrypting fd buf =>
      cases taken
      obtain ⟨served, whole, arrived, size, tx⟩ := serves
      refine ⟨served, whole, buf, arrived, size, rfl, req_pos, ?_⟩
      rw [List.take_zero, List.append_nil]
      exact tx
    | writing fd buf put =>
      obtain ⟨⟨k', r⟩, answer, rfl⟩ := Option.map_eq_some_iff.mp taken
      exact afterWrite_serves inPlace serves answer
    | closing fd =>
      cases taken
      exact serves
    | returned => cases taken

theorem stockInit_serves (transform : Bytes → Bytes) (fd : Fd) :
    Serves transform (stockInit fd) :=
  ⟨[], nofun, rfl, req_pos, rfl⟩

/-- A stock thread writes a prefix of its responses, whatever its socket does. -/
theorem StockReach.tx_isPrefix {transform : Bytes → Bytes} {fd : Fd} {t : Conn} {k : Socket}
    (inPlace : ∀ bs, (transform bs).length = bs.length)
    (reached : StockReach transform fd t k) : k.tx <+: responses transform k.arrived := by
  obtain ⟨acts, ran⟩ := reached
  have serves : Serves transform (t, k) :=
    Machine.invariant_reached (fun _ _ _ inv taken => stockStep_serves inPlace inv taken)
      (stockInit_serves transform fd) ran
  exact serves.tx_isPrefix

end TransparentOffload.ConnServer
