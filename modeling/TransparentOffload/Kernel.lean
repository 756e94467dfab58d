import Mathlib.Logic.Function.Basic
import Mathlib.Data.List.Basic

set_option autoImplicit false

/- What the runtime asks of the kernel: stream sockets and one epoll instance.
An `IoOut` is the kernel's choice at one call; an answer it cannot give for the
socket's state is `none`. A descriptor names its open socket. -/
namespace TransparentOffload

abbrev Fd := Nat
abbrev Errno := Nat
abbrev Bytes := List UInt8

/-- `EAGAIN`, which is also `EWOULDBLOCK`. -/
def eagain : Errno := 11

/-- What `epoll_ctl` reports for a descriptor that is not registered. -/
def enoent : Errno := 2

/-- What one system call returns: the bytes read, the count written, or an errno. -/
inductive IoRet
  | data (bs : Bytes)
  | count (n : Nat)
  | err (e : Errno)
  deriving DecidableEq, Repr

/-- The kernel's choice: no progress, `n` bytes, end of file, or an error. -/
inductive IoOut
  | again
  | part (n : Nat)
  | eof
  | fail (e : Errno)
  deriving DecidableEq, Repr

/-- One end of a stream: `arrived` is all the peer has sent so far, `rx` what of
it is unread, `tx` all that was accepted for sending. -/
structure Socket where
  arrived : Bytes
  rx : Bytes
  tx : Bytes
  hup : Bool
  nonblock : Bool
  deriving DecidableEq, Repr

namespace Socket

def fresh : Socket := ⟨[], [], [], false, false⟩

/-- `setnb`. -/
def setnb (k : Socket) : Socket := { k with nonblock := true }

def arrive (k : Socket) (bs : Bytes) : Socket :=
  { k with arrived := k.arrived ++ bs, rx := k.rx ++ bs }

def hangup (k : Socket) : Socket := { k with hup := true }

/-- `read`, `recv` and `recvfrom` in the kernel, for at most `n` bytes. -/
def realRead (k : Socket) (n : Nat) (dontwait : Bool) : IoOut → Option (Socket × IoRet)
  | .again => if k.nonblock || dontwait then some (k, .err eagain) else none
  | .part m =>
    if m ≤ n ∧ m ≤ k.rx.length ∧ (0 < m ∨ n = 0) then
      some ({ k with rx := k.rx.drop m }, .data (k.rx.take m))
    else none
  | .eof => if k.rx = [] ∧ k.hup then some (k, .data []) else none
  | .fail e => if e = eagain then none else some (k, .err e)

/-- `write`, `send` and `sendto` in the kernel. -/
def realWrite (k : Socket) (bs : Bytes) (dontwait : Bool) : IoOut → Option (Socket × IoRet)
  | .again => if k.nonblock || dontwait then some (k, .err eagain) else none
  | .part m =>
    if m ≤ bs.length ∧ (0 < m ∨ bs = []) then
      some ({ k with tx := k.tx ++ bs.take m }, .count m)
    else none
  | .eof => none
  | .fail e => if e = eagain then none else some (k, .err e)

/-- A read takes the next bytes off the stream or changes nothing. -/
theorem realRead_answer {k k' : Socket} {n : Nat} {dontwait : Bool} {out : IoOut}
    {r : IoRet} (answer : k.realRead n dontwait out = some (k', r)) :
    (∃ bs, r = .data bs ∧ bs.length ≤ n ∧ k.rx = bs ++ k'.rx ∧ k'.arrived = k.arrived ∧
      k'.tx = k.tx) ∨ (∃ e, r = .err e) ∧ k' = k := by
  unfold Socket.realRead at answer
  split at answer
  · split at answer <;> cases answer
    exact Or.inr ⟨⟨_, rfl⟩, rfl⟩
  · split at answer <;> cases answer
    rename_i m possible
    refine Or.inl ⟨_, rfl, ?_, (List.take_append_drop m k.rx).symm, rfl, rfl⟩
    rw [List.length_take]
    omega
  · split at answer <;> cases answer
    exact Or.inl ⟨[], rfl, Nat.zero_le n, rfl, rfl, rfl⟩
  · split at answer <;> cases answer
    exact Or.inr ⟨⟨_, rfl⟩, rfl⟩

/-- A write accepts the next bytes or changes nothing. -/
theorem realWrite_answer {k k' : Socket} {bs : Bytes} {dontwait : Bool} {out : IoOut}
    {r : IoRet} (answer : k.realWrite bs dontwait out = some (k', r)) :
    (∃ n, r = .count n ∧ n ≤ bs.length ∧ k'.tx = k.tx ++ bs.take n ∧ k'.arrived = k.arrived ∧
      k'.rx = k.rx) ∨ (∃ e, r = .err e) ∧ k' = k := by
  unfold Socket.realWrite at answer
  split at answer
  · split at answer <;> cases answer
    exact Or.inr ⟨⟨_, rfl⟩, rfl⟩
  · split at answer <;> cases answer
    rename_i m possible
    exact Or.inl ⟨m, rfl, possible.1, rfl, rfl, rfl⟩
  · cases answer
  · split at answer <;> cases answer
    exact Or.inr ⟨⟨_, rfl⟩, rfl⟩

end Socket

/-- The socket calls that park on `EAGAIN`. -/
inductive IoOp
  | read (n : Nat)
  | recv (n : Nat) (dontwait : Bool)
  | recvfrom (n : Nat) (dontwait : Bool)
  | write (bs : Bytes)
  | send (bs : Bytes) (dontwait : Bool)
  | sendto (bs : Bytes) (dontwait : Bool)
  deriving DecidableEq, Repr

/-- The two events the runtime ever asks epoll for. -/
structure Events where
  epollin : Bool
  epollout : Bool
  deriving DecidableEq, Repr

namespace Events

def inp : Events := ⟨true, false⟩
def out : Events := ⟨false, true⟩
def empty : Events := ⟨false, false⟩

/-- Every event of the second mask is in the first. -/
def covers (have_ asked : Events) : Prop :=
  (asked.epollin → have_.epollin) ∧ (asked.epollout → have_.epollout)

theorem covers_refl (ev : Events) : ev.covers ev := ⟨id, id⟩

end Events

namespace IoOp

/-- The real call under each interposer. -/
def real (k : Socket) (out : IoOut) : IoOp → Option (Socket × IoRet)
  | .read n => k.realRead n false out
  | .recv n dontwait | .recvfrom n dontwait => k.realRead n dontwait out
  | .write bs => k.realWrite bs false out
  | .send bs dontwait | .sendto bs dontwait => k.realWrite bs dontwait out

def isWrite : IoOp → Bool
  | .write _ => true
  | _ => false

/-- The event each interposer parks on. -/
def event : IoOp → Events
  | .read _ | .recv .. | .recvfrom .. => .inp
  | .write _ | .send .. | .sendto .. => .out

end IoOp

/-- An epoll registration: `ptr` is `data.ptr`, the slot of the fiber it wakes.
Every registration is `EPOLLONESHOT`, so delivering its event disarms it. -/
structure Reg where
  events : Events
  ptr : Nat
  armed : Bool
  deriving DecidableEq, Repr

/-- The interest list, at most one registration for a descriptor. -/
abbrev Epoll := Fd → Option Reg

namespace Epoll

def empty : Epoll := fun _ => none

/-- `EPOLL_CTL_MOD` fails on a descriptor without a registration. -/
def ctlMod (ep : Epoll) (fd : Fd) (r : Reg) : Option Epoll :=
  match ep fd with
  | none => none
  | some _ => some (Function.update ep fd (some r))

/-- `EPOLL_CTL_ADD` fails on a registered descriptor. -/
def ctlAdd (ep : Epoll) (fd : Fd) (r : Reg) : Option Epoll :=
  match ep fd with
  | none => some (Function.update ep fd (some r))
  | some _ => none

/-- `EPOLL_CTL_DEL`, and what `close` does to the interest list. -/
def ctlDel (ep : Epoll) (fd : Fd) : Epoll := Function.update ep fd none

/-- `if(epoll_ctl(MOD)<0) epoll_ctl(ADD)`, with `ev|EPOLLONESHOT` and `data.ptr=f`. -/
def arm (ep : Epoll) (fd : Fd) (ev : Events) (ptr : Nat) : Epoll :=
  match ep.ctlMod fd ⟨ev, ptr, true⟩ with
  | some modified => modified
  | none => (ep.ctlAdd fd ⟨ev, ptr, true⟩).getD ep

/-- The fiber an event on `fd` is reported to, when its registration is armed. -/
def pending (ep : Epoll) (fd : Fd) : Option Nat :=
  match ep fd with
  | some r => if r.armed then some r.ptr else none
  | none => none

/-- Reporting the event disarms the registration. -/
def disarm (ep : Epoll) (fd : Fd) : Epoll :=
  Function.update ep fd ((ep fd).map fun r => { r with armed := false })

/-- Whichever of the two calls succeeds, the registration is replaced whole. -/
theorem arm_eq (ep : Epoll) (fd : Fd) (ev : Events) (ptr : Nat) :
    ep.arm fd ev ptr = Function.update ep fd (some ⟨ev, ptr, true⟩) := by
  unfold arm ctlMod ctlAdd
  cases ep fd <;> rfl

theorem pending_eq_some {ep : Epoll} {fd : Fd} {ptr : Nat} :
    ep.pending fd = some ptr ↔ ∃ r, ep fd = some r ∧ r.armed = true ∧ r.ptr = ptr := by
  unfold pending
  cases registered : ep fd with
  | none => simp
  | some r => cases armed : r.armed <;> simp [armed]

end Epoll

end TransparentOffload
