import TransparentOffload.Kernel
import TransparentOffload.Lib.Run

set_option autoImplicit false

/- `libaccel`: callers that submit, poll and release requests, and the device that
scans the slots. Each store of `accel_submit` is a step of its own, and so are the
device's transform and its store of `done`. -/
namespace TransparentOffload.LibAccel

/-- `NSLOT`. -/
def nSlot : Nat := 8192

/-- The address of a buffer; the buffers of two addresses have no byte in common. -/
abbrev Buf := Nat

/-- `struct slot`. -/
structure Slot where
  buf : Buf
  n : Nat
  deadline : Nat
  busy : Bool
  done : Bool
  deriving DecidableEq, Repr

/-- How far the caller of a request has come: at one of the stores of
`accel_submit`, with its id in hand, with a true `accel_done`, or past its
`accel_release`. -/
inductive Stage
  | storeBuf
  | storeN
  | storeDone
  | storeDeadline
  | storeBusy
  | submitted
  | seen
  | released
  deriving DecidableEq, Repr

/-- The caller uses its slot: from its first store until its release. -/
def Stage.holds : Stage → Bool
  | .storeBuf | .released => false
  | _ => true

/-- One call of `accel_submit` and what becomes of it. `content` and `since` are the
buffer's bytes and the number of its transforms when the call was made. -/
structure Request where
  buf : Buf
  n : Nat
  stage : Stage
  content : Bytes
  since : Nat
  deriving DecidableEq, Repr

/-- `transform` is the device's operation on the first `n` bytes of a buffer. -/
structure Config where
  accelLatNs : Nat
  transform : Nat → Bytes → Bytes

/-- The library and its callers. `scanned` is the slot whose `done` the device has
still to store; `transforms` counts a buffer's transforms and `last` is the latest
request that was made for it and not written over since. -/
structure State where
  slots : Nat → Slot
  subHead : Nat
  requests : Nat → Request
  scanned : Option Nat
  mem : Buf → Bytes
  transforms : Buf → Nat
  last : Buf → Option Nat

def State.init (mem : Buf → Bytes) : State :=
  { slots := fun _ => ⟨0, 0, 0, false, false⟩, subHead := 0
    requests := fun _ => ⟨0, 0, .storeBuf, [], 0⟩, scanned := none, mem := mem
    transforms := fun _ => 0, last := fun _ => none }

namespace State

/-- The slot of a request, which is `id%NSLOT`. -/
def slotOf (s : State) (id : Nat) : Slot := s.slots (id % nSlot)

/-- The fetch-and-add of `accel_submit`. -/
def accelSubmit (s : State) (buf : Buf) (n : Nat) : State :=
  { s with
    subHead := s.subHead + 1
    requests := Function.update s.requests s.subHead
      ⟨buf, n, .storeBuf, s.mem buf, s.transforms buf⟩
    last := Function.update s.last buf (some s.subHead) }

/-- A caller goes on to the next stage and leaves its slot as given. -/
def put (s : State) (id : Nat) (slot : Slot) (stage : Stage) : State :=
  { s with
    slots := Function.update s.slots (id % nSlot) slot
    requests := Function.update s.requests id { s.requests id with stage := stage } }

theorem put_self (s : State) (id : Nat) (slot : Slot) (stage : Stage) :
    (s.put id slot stage).requests id = { s.requests id with stage := stage } :=
  Function.update_self ..

theorem put_other (s : State) {id id' : Nat} (slot : Slot) (stage : Stage) (apart : id' ≠ id) :
    (s.put id slot stage).requests id' = s.requests id' :=
  Function.update_of_ne apart ..

theorem put_slot (s : State) (id : Nat) (slot : Slot) (stage : Stage) :
    (s.put id slot stage).slots (id % nSlot) = slot := Function.update_self ..

theorem put_slot_other (s : State) {id i : Nat} (slot : Slot) (stage : Stage)
    (apart : i ≠ id % nSlot) : (s.put id slot stage).slots i = s.slots i :=
  Function.update_of_ne apart ..

theorem put_buf (s : State) (id id' : Nat) (slot : Slot) (stage : Stage) :
    ((s.put id slot stage).requests id').buf = (s.requests id').buf := by
  by_cases same : id' = id
  · subst same
    rw [put_self]
  · rw [put_other s slot stage same]

/-- The stores of `accel_submit`, in order; the last one is behind its barrier. -/
def store (c : Config) (s : State) (id now : Nat) : Option State :=
  let r := s.requests id
  let slot := s.slotOf id
  match r.stage with
  | .storeBuf => some (s.put id { slot with buf := r.buf } .storeN)
  | .storeN => some (s.put id { slot with n := r.n } .storeDone)
  | .storeDone => some (s.put id { slot with done := false } .storeDeadline)
  | .storeDeadline => some (s.put id { slot with deadline := now + c.accelLatNs } .storeBusy)
  | .storeBusy => some (s.put id { slot with busy := true } .submitted)
  | .submitted | .seen | .released => none

/-- What `accel_done(id)` returns. -/
def accelDone (s : State) (id : Nat) : Bool := (s.slotOf id).done

/-- A caller that has its id polls it. -/
def poll (s : State) (id : Nat) : Option State :=
  match (s.requests id).stage with
  | .submitted => some (if s.accelDone id then s.put id (s.slotOf id) .seen else s)
  | .seen => some s
  | _ => none

/-- `accel_release(id)`, called by a caller that saw its id done. -/
def accelRelease (s : State) (id : Nat) : Option State :=
  match (s.requests id).stage with
  | .seen => some (s.put id { s.slotOf id with busy := false } .released)
  | _ => none

/-- The device's transform of the buffer that slot `i` names. -/
def transformSlot (c : Config) (s : State) (i : Nat) : State :=
  let slot := s.slots i
  { s with
    scanned := some i
    mem := Function.update s.mem slot.buf (c.transform slot.n (s.mem slot.buf))
    transforms := Function.update s.transforms slot.buf (s.transforms slot.buf + 1) }

/-- The device at slot `i` with clock `t`, up to the end of its transform. -/
def scan (c : Config) (s : State) (i t : Nat) : Option State :=
  let slot := s.slots i
  if s.scanned = none ∧ i < nSlot ∧ slot.busy ∧ slot.done = false ∧ slot.deadline ≤ t then
    some (s.transformSlot c i)
  else none

/-- The device's `slots[i].done=1`. -/
def finish (s : State) : Option State :=
  match s.scanned with
  | none => none
  | some i => some { s with
      scanned := none, slots := Function.update s.slots i { s.slots i with done := true } }

/-- The owner of a buffer writes it. -/
def fill (s : State) (buf : Buf) (bs : Bytes) : State :=
  { s with
    mem := Function.update s.mem buf bs
    last := Function.update s.last buf none }

end State

inductive Act
  | submit (buf : Buf) (n : Nat)
  | store (id now : Nat)
  | scan (i t : Nat)
  | finish
  | poll (id : Nat)
  | release (id : Nat)
  | fill (buf : Buf) (bs : Bytes)
  deriving DecidableEq, Repr

def step (c : Config) (s : State) : Act → Option State
  | .submit buf n => some (s.accelSubmit buf n)
  | .store id now => if id < s.subHead then s.store c id now else none
  | .scan i t => s.scan c i t
  | .finish => s.finish
  | .poll id => if id < s.subHead then s.poll id else none
  | .release id => if id < s.subHead then s.accelRelease id else none
  | .fill buf bs => some (s.fill buf bs)

/-- The calls a program makes on the library. -/
abbrev runActs (c : Config) (s : State) (acts : List Act) : Option State :=
  Machine.run (step c) s acts

/-- A caller that makes one request or writes a buffer owns it: no request for that
buffer is under way. -/
def OwnBuffer (s : State) : Act → Prop
  | .submit buf _ | .fill buf _ => ∀ id < s.subHead,
      (s.requests id).stage ≠ .released → (s.requests id).buf ≠ buf
  | _ => True

instance (s : State) (a : Act) : Decidable (OwnBuffer s a) :=
  match a with
  | .submit buf _ | .fill buf _ => inferInstanceAs (Decidable (∀ id < s.subHead,
      (s.requests id).stage ≠ .released → (s.requests id).buf ≠ buf))
  | .store .. | .scan .. | .finish | .poll _ | .release _ => inferInstanceAs (Decidable True)

/-- The first store of a request finds its slot unused. -/
def SlotFree (s : State) : Act → Prop
  | .store id _ => id < s.subHead → (s.requests id).stage = .storeBuf → ∀ id' < s.subHead,
      (s.requests id').stage.holds = true → id' % nSlot ≠ id % nSlot
  | _ => True

/-- `accel_submit(buf,n)` by the caller that gets `id`. -/
def submitActs (id : Nat) (buf : Buf) (n now : Nat) : List Act :=
  .submit buf n :: List.replicate 5 (.store id now)

/-- `accel_encrypt(buf,n)`, on a device whose clock reads `t` at the slot. -/
def encryptActs (id : Nat) (buf : Buf) (n now t : Nat) : List Act :=
  submitActs id buf n now ++ [.scan (id % nSlot) t, .finish, .poll id, .release id]

/-- The state in which `accel_submit` returns. -/
def State.afterSubmit (c : Config) (s : State) (buf : Buf) (n now : Nat) : State :=
  { s with
    subHead := s.subHead + 1
    slots := Function.update s.slots (s.subHead % nSlot) ⟨buf, n, now + c.accelLatNs, true, false⟩
    requests := Function.update s.requests s.subHead
      ⟨buf, n, .submitted, s.mem buf, s.transforms buf⟩
    last := Function.update s.last buf (some s.subHead) }

theorem submitActs_run (c : Config) (s : State) (buf : Buf) (n now : Nat) :
    runActs c s (submitActs s.subHead buf n now) = some (s.afterSubmit c buf n now) := by
  simp [submitActs, runActs, Machine.run, step, State.store, State.accelSubmit, State.put,
    State.slotOf, State.afterSubmit, List.replicate]

/-- A synchronous call leaves its buffer transformed and the rest of memory alone. -/
theorem encryptActs_run (c : Config) (s : State) (buf : Buf) (n now t : Nat)
    (unscanned : s.scanned = none) (late : now + c.accelLatNs ≤ t) :
    ∃ s', runActs c s (encryptActs s.subHead buf n now t) = some s' ∧
      s'.mem = Function.update s.mem buf (c.transform n (s.mem buf)) ∧
      s'.scanned = none ∧ s'.subHead = s.subHead + 1 := by
  have inside : s.subHead % nSlot < nSlot := Nat.mod_lt _ (by decide)
  unfold encryptActs
  rw [runActs, Machine.run_append_of_run (submitActs_run c s buf n now)]
  simp [Machine.run, step, State.scan, State.transformSlot, State.afterSubmit, State.finish,
    State.poll, State.accelDone, State.accelRelease, State.put, State.slotOf, unscanned, late,
    inside]

end TransparentOffload.LibAccel
