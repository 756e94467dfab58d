import TransparentOffload.Aes
import TransparentOffload.Lib.Run

set_option autoImplicit false

/- `libaccel_gpu`: callers that submit and poll, or encrypt synchronously, on staging
slots with a stream and an event each. Each store and each CUDA call of `accel_submit`
is a step of its own, and so is each operation a stream executes. -/
namespace TransparentOffload.LibAccelGpu

/-- `NSLOT`. -/
def nSlot : Nat := 256

/-- The address of a buffer; the buffers of two addresses have no byte in common. -/
abbrev Buf := Nat

/-- What `accel_submit` puts on a stream. -/
inductive Op
  | copyToDevice
  | aesCtr
  | copyToHost
  | record
  deriving DecidableEq, Repr

/-- What one request puts on its stream, in order. -/
def opsOfSubmit : List Op := [.copyToDevice, .aesCtr, .copyToHost, .record]

/-- `struct gslot`. The stream executes its operations in order; `issued` and `completed`
count them, which is what a synchronization looks at. -/
structure GSlot where
  h : Bytes
  d : Bytes
  ubuf : Buf
  n : Nat
  inited : Bool
  stream : List Op
  issued : Nat
  completed : Nat
  deriving DecidableEq, Repr

/-- How far a caller has come: before the slot is ready, at its copy into the slot, at
the two stores, with operations still to issue, with its id, behind an event query that
succeeded, in the synchronization of `accel_encrypt` up to an operation, or back from the
call that copied its result. -/
inductive GStage
  | prepare
  | copyIn
  | storeBuf
  | storeN
  | issue (rest : List Op)
  | submitted
  | copyOut
  | syncing (upTo : Nat)
  | returned
  deriving DecidableEq, Repr

/-- One request of a caller: its buffer and length, whether it is an `accel_encrypt`, and
the bytes `accel_submit` has read from its buffer. -/
structure GRequest where
  buf : Buf
  n : Nat
  sync : Bool
  stage : GStage
  content : Bytes
  deriving DecidableEq, Repr

/-- `SZ`, a multiple of 16 and at least that. -/
structure Config where
  sz : Nat
  positive : 16 ≤ sz
  blocks : sz % 16 = 0

/-- `KEY`. -/
def key : Bytes := [1, 8, 15, 22, 29, 36, 43, 50, 57, 64, 71, 78, 85, 92, 99, 106]

/-- The kernel that `accel_submit` launches on the staging bytes. -/
def transform (c : Config) (data : Bytes) : Bytes :=
  Aes.aesCtr (Aes.keyExpand key) 0 (c.sz / 16) data

structure State where
  slots : Nat → GSlot
  subHead : Nat
  requests : Nat → GRequest
  mem : Buf → Bytes

def State.init (mem : Buf → Bytes) : State :=
  { slots := fun _ => ⟨[], [], 0, 0, false, [], 0, 0⟩, subHead := 0
    requests := fun _ => ⟨0, 0, false, .prepare, []⟩, mem := mem }

/-- `memcpy` over the front of what is there. -/
def memcpy (dst src : Bytes) : Bytes := src ++ dst.drop src.length

namespace State

/-- The slot of a request, which is `id%NSLOT`. -/
def slotOf (s : State) (id : Nat) : GSlot := s.slots (id % nSlot)

/-- The fetch-and-add of `accel_submit`. -/
def accelSubmit (s : State) (buf : Buf) (n : Nat) (sync : Bool) : State :=
  { s with
    subHead := s.subHead + 1
    requests := Function.update s.requests s.subHead ⟨buf, n, sync, .prepare, []⟩ }

/-- A caller goes on to the next stage and leaves its slot as given. -/
def put (s : State) (id : Nat) (slot : GSlot) (stage : GStage) : State :=
  { s with
    slots := Function.update s.slots (id % nSlot) slot
    requests := Function.update s.requests id { s.requests id with stage := stage } }

/-- The slot is made on its first use, under the lock; the bytes of its staging buffers
are whatever the allocation gives. -/
def ready (c : Config) (s : State) (id : Nat) (h d : Bytes) : Option State :=
  let slot := s.slotOf id
  if (s.requests id).stage = .prepare then
    if slot.inited then some (s.put id slot .copyIn)
    else if h.length = c.sz ∧ d.length = c.sz then
      some (s.put id { slot with h := h, d := d, inited := true } .copyIn)
    else none
  else none

/-- How many bytes are copied in and out. -/
def cp (c : Config) (n : Nat) : Nat := min n c.sz

/-- `memcpy(slots[i].h,buf,cp)`; a buffer shorter than that is not the library's. -/
def copyIn (c : Config) (s : State) (id : Nat) : Option State :=
  let r := s.requests id
  let slot := s.slotOf id
  let bytes := (s.mem r.buf).take (cp c r.n)
  if r.stage = .copyIn ∧ cp c r.n ≤ (s.mem r.buf).length then
    some { s with
      slots := Function.update s.slots (id % nSlot) { slot with h := memcpy slot.h bytes }
      requests := Function.update s.requests id { r with stage := .storeBuf, content := bytes } }
  else none

/-- The next store or CUDA call of `accel_submit`. -/
def advance (s : State) (id : Nat) : Option State :=
  let r := s.requests id
  let slot := s.slotOf id
  match r.stage with
  | .storeBuf => some (s.put id { slot with ubuf := r.buf } .storeN)
  | .storeN => some (s.put id { slot with n := r.n } (.issue opsOfSubmit))
  | .issue (op :: rest) =>
    some (s.put id { slot with stream := slot.stream ++ [op], issued := slot.issued + 1 }
      (if rest = [] then .submitted else .issue rest))
  | _ => none

/-- An operation on a slot's stream, at the head of the stream. -/
def execute (c : Config) (slot : GSlot) : Op → GSlot
  | .copyToDevice => { slot with d := slot.h }
  | .aesCtr => { slot with d := transform c slot.d }
  | .copyToHost => { slot with h := slot.d }
  | .record => slot

/-- The stream of slot `i` executes its next operation. -/
def device (c : Config) (s : State) (i : Nat) : Option State :=
  match (s.slots i).stream with
  | [] => none
  | op :: rest =>
    some { s with
      slots := Function.update s.slots i
        { execute c { s.slots i with stream := rest } op with
          completed := (s.slots i).completed + 1 } }

/-- `cudaEventQuery(slots[i].ev)==cudaSuccess`: what was recorded last is behind. -/
def recorded (slot : GSlot) : Bool := !slot.stream.contains .record

/-- A copy of `bytes` into a caller's buffer, after which the call of `id` is back. -/
def deliver (s : State) (id : Nat) (buf : Buf) (bytes : Bytes) : State :=
  { s with
    mem := Function.update s.mem buf (memcpy (s.mem buf) bytes)
    requests := Function.update s.requests id { s.requests id with stage := .returned } }

/-- The query of `accel_done(id)`; where it fails the caller polls again. -/
def accelDone (s : State) (id : Nat) : Option State :=
  if (s.requests id).stage = .submitted ∧ (s.requests id).sync = false then
    if recorded (s.slotOf id) then some (s.put id (s.slotOf id) .copyOut) else some s
  else none

/-- What `accel_done(id)` copies behind its query: to where, and which bytes. -/
def doneCopy (c : Config) (s : State) (id : Nat) : Option (Buf × Bytes) :=
  let slot := s.slotOf id
  if (s.requests id).stage = .copyOut then some (slot.ubuf, slot.h.take (cp c slot.n)) else none

/-- The end of an `accel_done(id)` that is true. -/
def copyOut (c : Config) (s : State) (id : Nat) : Option State :=
  (s.doneCopy c id).map fun out => s.deliver id out.1 out.2

/-- `accel_encrypt` goes into its synchronization. -/
def synchronize (s : State) (id : Nat) : Option State :=
  if (s.requests id).stage = .submitted ∧ (s.requests id).sync = true then
    some (s.put id (s.slotOf id) (.syncing (s.slotOf id).issued))
  else none

/-- What `accel_encrypt` copies once the stream has come that far. -/
def encryptCopy (c : Config) (s : State) (id : Nat) : Option (Buf × Bytes) :=
  let r := s.requests id
  match r.stage with
  | .syncing upTo =>
    if upTo ≤ (s.slotOf id).completed then some (r.buf, (s.slotOf id).h.take (cp c r.n))
    else none
  | _ => none

/-- The end of `accel_encrypt`. -/
def finish (c : Config) (s : State) (id : Nat) : Option State :=
  (s.encryptCopy c id).map fun out => s.deliver id out.1 out.2

/-- Callers write their own buffers as they like. -/
def user (s : State) (buf : Buf) (bytes : Bytes) : State :=
  { s with mem := Function.update s.mem buf bytes }

end State

/-- A step of a caller, of a stream, or of the code that owns a buffer. -/
inductive GpuAct
  | submit (buf : Buf) (n : Nat) (sync : Bool)
  | ready (id : Nat) (h d : Bytes)
  | copyIn (id : Nat)
  | advance (id : Nat)
  | device (i : Nat)
  | done (id : Nat)
  | copyOut (id : Nat)
  | synchronize (id : Nat)
  | finish (id : Nat)
  | user (buf : Buf) (bytes : Bytes)
  deriving DecidableEq, Repr

/-- The library; only ids that were drawn are worked on. -/
def step (c : Config) (s : State) : GpuAct → Option State
  | .submit buf n sync => some (s.accelSubmit buf n sync)
  | .ready id h d => if id < s.subHead then s.ready c id h d else none
  | .copyIn id => if id < s.subHead then s.copyIn c id else none
  | .advance id => if id < s.subHead then s.advance id else none
  | .device i => s.device c i
  | .done id => if id < s.subHead then s.accelDone id else none
  | .copyOut id => if id < s.subHead then s.copyOut c id else none
  | .synchronize id => if id < s.subHead then s.synchronize id else none
  | .finish id => if id < s.subHead then s.finish c id else none
  | .user buf bytes => some (s.user buf bytes)

end TransparentOffload.LibAccelGpu
