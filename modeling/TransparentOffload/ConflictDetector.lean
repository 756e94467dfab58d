import Mathlib.Algebra.Group.Int.Defs
import Mathlib.Algebra.Group.Nat.Defs
import TransparentOffload.Lib.Run

set_option autoImplicit false

/- `src/runtime/conflict_detector`: coroutines that read, offload and commit shared
entries under four protocols, their scheduler, and the device that completes the
offloads. A slice of a coroutine, up to its next switch, is one step; the device
can act between any two steps, and the clock can read anything. -/
namespace TransparentOffload.ConflictDetector

def maxSlot : Nat := 512
def maxKey : Nat := 100000
def lNs : Nat := 20000

/-- The four values of `MODE`. -/
inductive Mode
  | naive
  | detect
  | serial
  | lock
  deriving DecidableEq, Repr

/-- The arguments of the program; each is an `int` and the first two size arrays. -/
structure Params where
  mode : Mode
  nkey : Nat
  c : Nat
  nIters : Int
  nkey_pos : 0 < nkey
  nkey_le : nkey ≤ maxKey
  c_pos : 0 < c
  c_le : c ≤ maxSlot
  nIters_lt : nIters < 2 ^ 31

/-- `(id*2654435761u + i*40503u) % NKEY`, in `unsigned` arithmetic. -/
def Params.key (p : Params) (id i : Nat) : Nat :=
  (id * 2654435761 + i * 40503) % 2 ^ 32 % p.nkey

/-- `struct slot`. -/
structure Slot where
  deadline : Nat
  active : Bool
  done : Bool
  deriving DecidableEq, Repr

/-- One entry of `cache`; `ver` is a `uint64_t`. -/
structure Entry where
  val : Nat
  ver : Nat
  deriving DecidableEq, Repr

/-- Where a coroutine is in the loop of `body`: before the loop's test, switched out
in the lock's loop, or in `coro_offload` with what it has read. -/
inductive At
  | head
  | lockWait
  | offload (v ver : Nat)
  deriving DecidableEq, Repr

/-- `struct coro`, with the loop counter and the place `body` is switched out at. -/
structure Coro where
  i : Nat
  at_ : At
  waiting : Bool
  finished : Bool
  deriving DecidableEq, Repr

/-- Where the scheduler is in the loops of `run`. -/
inductive Pc
  | wake (i : Nat)
  | resume (i fin : Nat)
  | ret
  deriving DecidableEq, Repr

/-- The globals; `commitsOn` is history, the commits made on each key. -/
structure State where
  cache : Nat → Entry
  keylock : Nat → Bool
  slots : Nat → Slot
  coros : Nat → Coro
  gCommits : Nat
  gFallbacks : Nat
  gLockwaits : Nat
  commitsOn : Nat → Nat
  pc : Pc

/-- The state in which `run` enters its loop. -/
def State.init : State :=
  { cache := fun _ => ⟨0, 0⟩, keylock := fun _ => false, slots := fun _ => ⟨0, false, false⟩
    coros := fun _ => ⟨0, .head, false, false⟩, gCommits := 0, gFallbacks := 0, gLockwaits := 0
    commitsOn := fun _ => 0, pc := .wake 0 }

namespace State

def setCoro (s : State) (id : Nat) (co : Coro) : State :=
  { s with coros := Function.update s.coros id co }

/-- `cache[k].val=v+1; cache[k].ver++; g_commits++`. -/
def commit (s : State) (k v : Nat) : State :=
  { s with
    cache := Function.update s.cache k ⟨v + 1, ((s.cache k).ver + 1) % 2 ^ 64⟩
    gCommits := s.gCommits + 1
    commitsOn := Function.update s.commitsOn k (s.commitsOn k + 1) }

/-- `coro_offload`, up to its switch. -/
def coroOffload (s : State) (id i v ver now : Nat) : State :=
  { s with slots := Function.update s.slots id ⟨now + lNs, true, false⟩ }.setCoro id
    ⟨i, .offload v ver, true, false⟩

theorem coroOffload_other {id id' : Nat} (apart : id' ≠ id) (s : State) (i v ver now : Nat) :
    (s.coroOffload id i v ver now).coros id' = s.coros id' := Function.update_of_ne apart ..

/-- Iteration `i` of coroutine `id` from its key on, up to its first switch. -/
def iterate (p : Params) (s : State) (id i now : Nat) : State :=
  let k := p.key id i
  match p.mode with
  | .lock =>
    if s.keylock k then
      { s with gLockwaits := s.gLockwaits + 1 }.setCoro id ⟨i, .lockWait, false, false⟩
    else
      { s with keylock := Function.update s.keylock k true }.coroOffload id i (s.cache k).val 0
        now
  | .serial => (s.commit k (s.cache k).val).coroOffload id i 0 0 now
  | .naive | .detect => s.coroOffload id i (s.cache k).val (s.cache k).ver now

/-- The loop's test and what follows it; nothing sets `stop`. -/
def loopHead (p : Params) (s : State) (id now : Nat) : State :=
  let i := (s.coros id).i
  if (i : Int) < p.nIters then s.iterate p id i now
  else s.setCoro id ⟨i, .head, false, true⟩

/-- The rest of iteration `i` after its offload, and the loop's increment. -/
def afterOffload (p : Params) (s : State) (id i v ver : Nat) : State :=
  let k := p.key id i
  let committed :=
    match p.mode with
    | .lock => { s.commit k v with keylock := Function.update s.keylock k false }
    | .serial => s
    | .naive => s.commit k v
    | .detect =>
      if (s.cache k).ver ≠ ver then
        { s with gFallbacks := s.gFallbacks + 1 }.commit k (s.cache k).val
      else s.commit k v
  committed.setCoro id ⟨i + 1, .head, false, false⟩

/-- What coroutine `id` does when it is switched in, up to its next switch. -/
def body (p : Params) (s : State) (id now : Nat) : State :=
  match (s.coros id).at_ with
  | .head => s.loopHead p id now
  | .lockWait => s.iterate p id (s.coros id).i now
  | .offload v ver => (s.afterOffload p id (s.coros id).i v ver).loopHead p id now

/-- One round of one of the loops of `run`. -/
def run (p : Params) (s : State) (now : Nat) : Option State :=
  match s.pc with
  | .wake i =>
    if i < p.c then
      if (s.coros i).waiting && (s.slots i).done then
        some { s.setCoro i { s.coros i with waiting := false } with
          slots := Function.update s.slots i { s.slots i with active := false }
          pc := .wake (i + 1) }
      else some { s with pc := .wake (i + 1) }
    else some { s with pc := .resume 0 0 }
  | .resume i fin =>
    if i < p.c then
      if (s.coros i).finished then some { s with pc := .resume (i + 1) (fin + 1) }
      else if (s.coros i).waiting then some { s with pc := .resume (i + 1) fin }
      else some { s.body p i now with pc := .resume (i + 1) fin }
    else if fin = p.c then some { s with pc := .ret }
    else some { s with pc := .wake 0 }
  | .ret => none

/-- One round of `device_fn`, with the time it has read. -/
def deviceFn (s : State) (i t : Nat) : Option State :=
  if i < maxSlot ∧ (s.slots i).active ∧ ¬ (s.slots i).done ∧ t ≥ (s.slots i).deadline then
    some { s with slots := Function.update s.slots i { s.slots i with done := true } }
  else none

end State

/-- One step of the scheduler or of the device, with the clock's reading. -/
inductive Act
  | run (now : Nat)
  | device (i t : Nat)
  deriving DecidableEq, Repr

def step (p : Params) (s : State) : Act → Option State
  | .run now => s.run p now
  | .device i t => s.deviceFn i t

/-- The commits coroutine `id` has made: one for each iteration it is past, and in
the serial mode one for the iteration whose offload it waits for. -/
def Coro.committed (mode : Mode) (co : Coro) : Nat :=
  match mode, co.at_ with
  | .serial, .offload _ _ => co.i + 1
  | _, _ => co.i

end TransparentOffload.ConflictDetector
