import Mathlib.Algebra.Order.BigOperators.Group.Finset
import TransparentOffload.Detector
import TransparentOffload.Kernel
import TransparentOffload.Lib.Run
import TransparentOffload.Lib.TicketRing

set_option autoImplicit false

/- `detector_module`: the Redis command `DET.RMW`. The main thread runs a command or
a reply callback to its end, one at a time; the workers take jobs from the work
queue and unblock their clients when the offload is done. A job is named by the
number of its allocation. -/
namespace TransparentOffload

def kslots : Nat := 256

/-- `PENDN`. -/
def jobPendN : Nat := 4096

/-- `QN`. -/
def workQn : Nat := 65536

/-- `INT_MAX`, past which an `int` has no next value. -/
def intMax : Nat := 2147483647

/-- `M_NAIVE`, `M_DETECT` and `M_LOCK`. -/
inductive RmwMode
  | naive
  | detect
  | lock
  deriving DecidableEq, Repr

/-- `job_t`; `begun` records that `begin` has read the counter. -/
structure Job where
  slot : Nat
  v : Nat
  df : DetFib
  begun : Bool
  deriving DecidableEq, Repr

/-- The globals of the module and of its detector, the jobs in the workers' hands
(each with its worker) and the jobs whose client is unblocked. `writes` and
`pageConflicts` are history: the completed writes to each counter, and the conflicts
the fault handler has counted on its page. -/
structure DetModule where
  cnt : Nat → Nat
  gTotal : Nat
  det : Detector
  jobs : Nat → Option Job
  allocated : Nat
  q : Tickets.Ring Nat
  inflight : Nat → Nat
  pend : Nat → Tickets.Ring Nat
  running : List (Nat × Nat)
  unblocked : List Nat
  writes : Nat → Nat
  pageConflicts : Nat → Nat

/-- `slot_of`: FNV-1a of the key's bytes. -/
def slotOf (key : Bytes) : Nat :=
  (key.foldl (fun (h : UInt32) b => (h ^^^ b.toUInt32) * 16777619) 2166136261).toNat % kslots

theorem slotOf_lt (key : Bytes) : slotOf key < kslots := Nat.mod_lt _ (by decide)

/-- The gate of a counter: its own, or gate 0 for all of them. -/
def RmwMode.gate (mode : RmwMode) (k : Nat) : Nat := if mode = .lock then 0 else k

namespace DetModule

/-- After `RedisModule_OnLoad`: the arena is mapped and, unless the mode is `lock`,
`det_init_region` has protected it. -/
def onLoad (mode : RmwMode) : DetModule :=
  { cnt := fun _ => 0, gTotal := 0
    det := if mode = .lock then .off
      else { Detector.off with detOn := true, writable := fun _ => false }
    jobs := fun _ => none, allocated := 0, q := ⟨fun _ => 0, 0, 0⟩, inflight := fun _ => 0
    pend := fun _ => ⟨fun _ => 0, 0, 0⟩, running := [], unblocked := []
    writes := fun _ => 0, pageConflicts := fun _ => 0 }

def enqueueOffload (s : DetModule) (p : Nat) : DetModule := { s with q := s.q.push workQn p }

/-- `begin`: read the counter, snapshot the clock, submit the offload. -/
def begin (mode : RmwMode) (s : DetModule) (p : Nat) : Option DetModule :=
  match s.jobs p with
  | none => none
  | some j =>
    let parked := if mode = .lock then (s.det, j.df) else s.det.detPark j.df
    let j := { j with v := s.cnt j.slot, df := parked.2, begun := true }
    some ({ s with det := parked.1, jobs := Function.update s.jobs p (some j) }.enqueueOffload p)

/-- `RedisModule_Alloc`, `memset` and `j->slot=k`. -/
def alloc (s : DetModule) (k : Nat) : DetModule :=
  { s with
    jobs := Function.update s.jobs s.allocated (some ⟨k, 0, ⟨0, false⟩, false⟩)
    allocated := s.allocated + 1 }

/-- `pend[g][ph[g]%PENDN]=j; ph[g]++`. With `INT_MAX` jobs queued at a gate `ph[g]++` has no
defined result and the run ends. -/
def queueJob (s : DetModule) (g p : Nat) : Option DetModule :=
  if (s.pend g).head = intMax then none
  else some { s with pend := Function.update s.pend g ((s.pend g).push jobPendN p) }

/-- `cmd_rmw`; with another number of arguments it only replies with the error. -/
def cmdRmw (mode : RmwMode) (s : DetModule) (argv : List Bytes) : Option DetModule :=
  match argv with
  | [_, key] =>
    let k := slotOf key
    if mode = .naive then (s.alloc k).begin mode s.allocated
    else if s.inflight (mode.gate k) = 0 then
      { s.alloc k with inflight := Function.update s.inflight (mode.gate k) 1 }.begin mode
        s.allocated
    else (s.alloc k).queueJob (mode.gate k) s.allocated
  | _ => some s

/-- One round of `worker`'s loop up to the offload, for worker `w`. -/
def take (s : DetModule) (w : Nat) : Option DetModule :=
  if w ∈ s.running.map Prod.fst ∨ s.q.head = s.q.tail then none
  else some { s with running := (w, s.q.front workQn) :: s.running, q := s.q.advance }

/-- The offload of worker `w` is done: `RedisModule_UnblockClient`. -/
def unblock (s : DetModule) (w p : Nat) : Option DetModule :=
  if (w, p) ∈ s.running then
    some { s with running := s.running.erase (w, p), unblocked := p :: s.unblocked }
  else none

/-- The gate of a finished job goes to the next one queued on it, or gets idle. -/
def advanceGate (mode : RmwMode) (s : DetModule) (g : Nat) : Option DetModule :=
  if (s.pend g).head ≠ (s.pend g).tail then
    { s with pend := Function.update s.pend g (s.pend g).advance }.begin mode
      ((s.pend g).front jobPendN)
  else some { s with inflight := Function.update s.inflight g 0 }

/-- The write phase of `reply_cb`: in `lock` mode no fiber is set and nothing is
protected. -/
def writeBack (mode : RmwMode) (s : DetModule) (j : Job) : DetModule :=
  let det := if mode = .lock then s.det else s.det.detReprotect
  let df := if mode = .lock then j.df else { j.df with active := true }
  let stored := det.store df j.slot
  { s with
    det := stored
    cnt := Function.update s.cnt j.slot (j.v + 1)
    gTotal := s.gTotal + 1
    writes := Function.update s.writes j.slot (s.writes j.slot + 1)
    pageConflicts := Function.update s.pageConflicts j.slot
      (s.pageConflicts j.slot + (stored.detConflicts - s.det.detConflicts)) }

/-- `RedisModule_Free(j)`. -/
def free (s : DetModule) (p : Nat) : DetModule := { s with jobs := Function.update s.jobs p none }

/-- `reply_cb` for the job `p`. -/
def replyCb (mode : RmwMode) (s : DetModule) (p : Nat) : Option DetModule :=
  match s.jobs p with
  | none => none
  | some j =>
    let s := { s with unblocked := s.unblocked.erase p }.writeBack mode j
    if mode = .naive then some (s.free p)
    else (s.advanceGate mode (mode.gate j.slot)).map fun s => s.free p

/-- The counters' sum, as `cmd_stats` computes it. -/
def sum (s : DetModule) : Nat := ∑ k ∈ Finset.range kslots, s.cnt k

end DetModule

/-- One command, one reply callback, or one step of a worker. -/
inductive DetAct
  | rmw (argv : List Bytes)
  | take (w : Nat)
  | unblock (w p : Nat)
  | reply (p : Nat)
  deriving DecidableEq, Repr

/-- The module with a pool of `nw` workers. -/
def DetModule.step (mode : RmwMode) (nw : Nat) (s : DetModule) : DetAct → Option DetModule
  | .rmw argv => s.cmdRmw mode argv
  | .take w => if w < nw then s.take w else none
  | .unblock w p => s.unblock w p
  | .reply p => if p ∈ s.unblocked then s.replyCb mode p else none

end TransparentOffload
