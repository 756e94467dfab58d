import TransparentOffload.Lib.Run
import TransparentOffload.Lib.WorkPool

set_option autoImplicit false

/- The patched memcached: each connection is driven by its own thread, `accelasync`
hands it to a pool of workers, and a worker that is done sends it back to its thread.
What memcached does in its own states is left open; of `drive_machine`, `out_string` and
`redispatch_conn` only what the patch relies on is fixed. -/
namespace TransparentOffload.Memcached

/-- `enum conn_states`, as far as the patch names it; `other` are the states of
memcached in the middle of a command or between commands. -/
inductive ConnState
  | newCmd
  | ioQueue
  | accelWait
  | other (n : Nat)
  deriving DecidableEq, Repr

/-- Where the thread of a connection is: outside of its `drive_machine`, in its loop, or
before a statement of `process_accel_async`. -/
inductive Drive
  | out
  | loop
  | enqueue
  | setState
  | eventDel
  deriving DecidableEq, Repr

/-- `conn`, with its event registered or not, and the place of its thread. `begun` counts
its `accelasync` commands, which are numbered from 1, and `oks` lists the number of the
latest one whenever `conn_accel_wait` answers. -/
structure Conn where
  state : ConnState
  accelPending : Bool
  event : Bool
  drive : Drive
  begun : Nat
  oks : List Nat
  deriving DecidableEq, Repr

/-- An entry of `accel_q`; the command it was made for is kept beside the connection. -/
structure AccelJob where
  c : Nat
  n : Nat
  deriving DecidableEq, Repr

/-- `ACCEL_QN`. -/
def accelQn : Nat := 65536

/-- The number of workers, and the states that the first branch of `conn_worker_readd`,
which is memcached's, hands to `drive_machine`. -/
structure Config where
  nw : Nat
  closing : Nat → Bool

/-- The connections, the queue with the workers that run an offload, the workers that
have cleared `accel_pending`, and the connections that were sent back to their threads. -/
structure State where
  conns : Nat → Conn
  pool : WorkPool.Pool AccelJob
  cleared : List (Nat × AccelJob)
  redispatched : List AccelJob

def State.init : State :=
  { conns := fun _ => ⟨.newCmd, false, true, .out, 0, []⟩
    pool := .idle ⟨0, 0⟩, cleared := [], redispatched := [] }

namespace State

def setConn (s : State) (c : Nat) (k : Conn) : State :=
  { s with conns := Function.update s.conns c k }

/-- The thread gets an event of the connection and runs `drive_machine`. -/
def event (s : State) (c : Nat) : Option State :=
  let k := s.conns c
  if k.drive = .out ∧ k.event then some (s.setConn c { k with drive := .loop }) else none

/-- A round of `drive_machine` in one of memcached's own states, which may go to any of
them, register the event or not, and stop. -/
def own (s : State) (c : Nat) (next : ConnState) (event stop : Bool) : Option State :=
  let k := s.conns c
  if k.drive = .loop ∧ k.state ≠ .accelWait ∧ next ≠ .accelWait then
    some (s.setConn c
      { k with state := next, event := event, drive := if stop then .out else .loop })
  else none

/-- `process_accel_async` is called: `accel_pending=1`. -/
def accelAsync (s : State) (c : Nat) : Option State :=
  let k := s.conns c
  if k.drive = .loop ∧ k.state ≠ .accelWait then
    some (s.setConn c { k with accelPending := true, drive := .enqueue, begun := k.begun + 1 })
  else none

/-- The rest of `process_accel_async`: the store into `accel_q` under the lock,
`conn_set_state` and `event_del`. -/
def accelAsyncNext (s : State) (c : Nat) : Option State :=
  let k := s.conns c
  match k.drive with
  | .enqueue =>
    some { s.setConn c { k with drive := .setState } with
      pool := s.pool.submit accelQn ⟨c, k.begun⟩ }
  | .setState => some (s.setConn c { k with state := .accelWait, drive := .eventDel })
  | .eventDel => some (s.setConn c { k with event := false, drive := .loop })
  | _ => none

/-- The case `conn_accel_wait` of `drive_machine`. -/
def accelWait (s : State) (c : Nat) : Option State :=
  let k := s.conns c
  if k.drive = .loop ∧ k.state = .accelWait then
    if k.accelPending then some (s.setConn c { k with drive := .out })
    else some (s.setConn c { k with state := .newCmd, oks := k.begun :: k.oks })
  else none

/-- `accel_worker` up to its offload. -/
def take (s : State) (w : Nat) : Option State :=
  if w ∈ s.cleared.map Prod.fst then none
  else (s.pool.take accelQn w).map fun pool => { s with pool := pool }

/-- The offload is done: `c->accel_pending=0`. -/
def clear (s : State) (w : Nat) : Option State :=
  (s.pool.held w).map fun j =>
    { s.setConn j.c { s.conns j.c with accelPending := false } with
      pool := s.pool.finish w j, cleared := (w, j) :: s.cleared }

/-- The entry of a worker that has cleared `accel_pending`. -/
def clearedOf (s : State) (w : Nat) : Option AccelJob :=
  (s.cleared.find? fun own => own.1 == w).map Prod.snd

/-- `redispatch_conn`. -/
def redispatch (s : State) (w : Nat) : Option State :=
  (s.clearedOf w).map fun j =>
    { s with cleared := s.cleared.erase (w, j), redispatched := j :: s.redispatched }

/-- `conn_worker_readd`, run once for each entry by the connection's own thread, which is
not in `drive_machine` then. -/
def connWorkerReadd (cfg : Config) (s : State) (j : AccelJob) : Option State :=
  let k := { s.conns j.c with event := true }
  if j ∈ s.redispatched ∧ k.drive = .out then
    let s := { s with redispatched := s.redispatched.erase j }
    match k.state with
    | .ioQueue | .accelWait => some (s.setConn j.c { k with drive := .loop })
    | .newCmd => some (s.setConn j.c { k with state := .newCmd })
    | .other n =>
      if cfg.closing n then some (s.setConn j.c { k with drive := .loop })
      else some (s.setConn j.c { k with state := .newCmd })
  else none

end State

/-- The steps of the connections' threads and of the workers. -/
inductive McAct
  | event (c : Nat)
  | own (c : Nat) (next : ConnState) (event stop : Bool)
  | accelAsync (c : Nat)
  | accelAsyncNext (c : Nat)
  | accelWait (c : Nat)
  | take (w : Nat)
  | clear (w : Nat)
  | redispatch (w : Nat)
  | readd (j : AccelJob)
  deriving DecidableEq, Repr

def step (cfg : Config) (s : State) : McAct → Option State
  | .event c => s.event c
  | .own c next event stop => s.own c next event stop
  | .accelAsync c => s.accelAsync c
  | .accelAsyncNext c => s.accelAsyncNext c
  | .accelWait c => s.accelWait c
  | .take w => if w < cfg.nw then s.take w else none
  | .clear w => s.clear w
  | .redispatch w => s.redispatch w
  | .readd j => s.connWorkerReadd cfg j

/-- The latest `accelasync` of a connection has no answer yet. -/
def Conn.InProgress (k : Conn) : Prop :=
  k.drive = .enqueue ∨ k.drive = .setState ∨ k.drive = .eventDel ∨ k.state = .accelWait

instance (k : Conn) : Decidable k.InProgress := inferInstanceAs (Decidable (_ ∨ _))

namespace State

/-- The jobs that a worker is done with and whose connection is not resumed yet. -/
def resuming (s : State) : List AccelJob := s.cleared.map Prod.snd ++ s.redispatched

/-- The answer to the latest command of `c` will come: it is about to be queued, queued or
at a worker, on its way back to the thread, or the thread is just at it. -/
def OnItsWay (s : State) (c : Nat) : Prop :=
  (s.conns c).drive = .enqueue ∨ ⟨c, (s.conns c).begun⟩ ∈ s.pool.outstanding accelQn ∨
    ⟨c, (s.conns c).begun⟩ ∈ s.resuming ∨
    ((s.conns c).drive = .loop ∧ (s.conns c).state = .accelWait ∧
      (s.conns c).accelPending = false)

/-- Every `accelasync` has exactly one OK, save one that is in progress, which has none
and will get it. -/
def OneOk (s : State) : Prop :=
  ∀ c, (∀ n, (s.conns c).oks.count n =
      if 0 < n ∧ n ≤ (s.conns c).begun ∧ ¬ ((s.conns c).InProgress ∧ n = (s.conns c).begun)
      then 1 else 0) ∧
    ((s.conns c).InProgress → s.OnItsWay c)

/-- A readd that a worker has caused finds its connection in `conn_accel_wait`, for the
command that the worker was given. -/
def ReaddMatches (s : State) : McAct → Prop
  | .readd j => (s.conns j.c).state = .accelWait ∧ (s.conns j.c).begun = j.n
  | _ => True

/-- No worker clears `accel_pending` before the connection's thread has stopped in
`conn_accel_wait`, and a connection is queued where the ring has a free slot. -/
def SuspendedFirst (s : State) : McAct → Prop
  | .clear w => ∀ j, s.pool.held w = some j → (s.conns j.c).drive = .out
  | .accelAsyncNext c => (s.conns c).drive = .enqueue →
      s.pool.q.Fits accelQn ⟨c, (s.conns c).begun⟩
  | _ => True

instance (s : State) : ∀ a, Decidable (s.SuspendedFirst a)
  | .clear w => decidable_of_iff (∀ j ∈ s.pool.held w, (s.conns j.c).drive = .out) Iff.rfl
  | .accelAsyncNext _ => inferInstanceAs (Decidable (_ → _))
  | .event _ | .own _ _ _ _ | .accelAsync _ | .accelWait _ | .take _ | .redispatch _ | .readd _ =>
    isTrue trivial

end State

end TransparentOffload.Memcached
