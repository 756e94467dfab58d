import TransparentOffload.Yield

set_option autoImplicit false

/- The interposed calls, for a fiber `f` in slot `i` that the carrier has switched
in. A call either comes back to the thread function or leaves the fiber parked;
`none` is a call the kernel keeps blocked, or an answer it cannot give. -/
namespace TransparentOffload

variable {σ γ : Type}

/-- The environment's answers at one step of the carrier: the descriptors
`epoll_wait` reports, what `accel_done` says, the two clocks, and what a real
socket call or a passed-through `poll` returns. -/
structure Out where
  events : List Fd
  done : Bool
  real : Timespec
  mono : Timespec
  io : IoOut
  poll : Int × Nat

def Out.quiet : Out := ⟨[], false, .zero, .zero, .again, (0, 0)⟩

namespace Runtime

/-- The interposed call returns to the code, which goes on in the same slice. -/
def resumeApp (s : Runtime σ γ) (i : Nat) (f : Fiber σ) (ctx : σ) : Runtime σ γ :=
  s.setFiber i { f with ctx := ctx, place := .app }

/-- The retry loop of every socket interposer: park on `EAGAIN`, else return. -/
def ioLoop (ssl : SslSyms) (s : Runtime σ γ) (i : Nat) (f : Fiber σ) (op : IoOp) (fd : Fd)
    (k : IoRet → σ) (out : IoOut) : Option (Runtime σ γ) :=
  match op.real (s.socks fd) out with
  | none => none
  | some (sock, .err e) =>
    if e = eagain then
      some ({ s.setSock fd sock with errno := e }.yieldIo ssl i f .io fd op.event)
    else some ({ s.setSock fd sock with errno := e }.resumeApp i f (k (.err e)))
  | some (sock, .data bs) =>
    some ((s.setSock fd sock).resumeApp i { f with got := f.got + bs.length } (k (.data bs)))
  | some (sock, .count n) => some ((s.setSock fd sock).resumeApp i f (k (.count n)))

/-- What every socket interposer does first on its descriptor. -/
def setnb (s : Runtime σ γ) (fd : Fd) : Runtime σ γ := s.setSock fd (s.socks fd).setnb

/-- `hl_acquire` from the loop test on, then the rest of `read`. -/
def hlAcquire (ssl : SslSyms) (s : Runtime σ γ) (i : Nat) (f : Fiber σ) (n : Nat) (fd : Fd)
    (k : IoRet → σ) (out : IoOut) : Option (Runtime σ γ) :=
  if s.handlerBusy f.slot then some (s.yieldRun ssl i f .handlerLock)
  else ((s.hlTake f.slot).setnb fd).ioLoop ssl i f (.read n) fd k out

def read (c : Config σ γ) (s : Runtime σ γ) (i : Nat) (f : Fiber σ) (n : Nat) (fd : Fd)
    (k : IoRet → σ) (out : IoOut) : Option (Runtime σ γ) :=
  if s.enforcing c.gEnforce && decide (s.hlockOwner ≠ some f.slot) then
    s.hlAcquire c.ssl i f n fd k out
  else (s.setnb fd).ioLoop c.ssl i f (.read n) fd k out

def write (c : Config σ γ) (s : Runtime σ γ) (i : Nat) (f : Fiber σ) (bs : Bytes) (fd : Fd)
    (k : IoRet → σ) (out : IoOut) : Option (Runtime σ γ) :=
  ((if s.enforcing c.gEnforce then s.hlRelease f.slot else s).setnb fd).ioLoop c.ssl i
    { f with got := 0 } (.write bs) fd k out

/-- `recv`, `send`, `recvfrom` and `sendto` share this body. -/
def vio (c : Config σ γ) (s : Runtime σ γ) (i : Nat) (f : Fiber σ) (op : IoOp) (fd : Fd)
    (k : IoRet → σ) (out : IoOut) : Option (Runtime σ γ) :=
  (s.setnb fd).ioLoop c.ssl i f op fd k out

def recv (c : Config σ γ) (s : Runtime σ γ) (i : Nat) (f : Fiber σ) (n : Nat)
    (dontwait : Bool) := s.vio c i f (.recv n dontwait)
def send (c : Config σ γ) (s : Runtime σ γ) (i : Nat) (f : Fiber σ) (bs : Bytes)
    (dontwait : Bool) := s.vio c i f (.send bs dontwait)
def recvfrom (c : Config σ γ) (s : Runtime σ γ) (i : Nat) (f : Fiber σ) (n : Nat)
    (dontwait : Bool) := s.vio c i f (.recvfrom n dontwait)
def sendto (c : Config σ γ) (s : Runtime σ γ) (i : Nat) (f : Fiber σ) (bs : Bytes)
    (dontwait : Bool) := s.vio c i f (.sendto bs dontwait)

def io (c : Config σ γ) (s : Runtime σ γ) (i : Nat) (f : Fiber σ) (op : IoOp) (fd : Fd)
    (k : IoRet → σ) (out : IoOut) : Option (Runtime σ γ) :=
  match op with
  | .read n => s.read c i f n fd k out
  | .write bs => s.write c i f bs fd k out
  | .recv n dontwait => s.recv c i f n dontwait fd k out
  | .send bs dontwait => s.send c i f bs dontwait fd k out
  | .recvfrom n dontwait => s.recvfrom c i f n dontwait fd k out
  | .sendto bs dontwait => s.sendto c i f bs dontwait fd k out

/-- The events of `poll` that are passed to epoll: `POLLIN` and `POLLOUT`. -/
def pollEvents (events : Nat) : Events := ⟨events.testBit 0, events.testBit 2⟩

/-- `poll` on one descriptor, up to its park. -/
def poll (c : Config σ γ) (s : Runtime σ γ) (i : Nat) (f : Fiber σ) (fd : Fd) (events : Nat)
    (timeout : Int) (k : Int → Nat → σ) (out : Out) : Runtime σ γ :=
  if pollEvents events = .empty ∨ timeout = 0 then
    s.resumeApp i f (k out.poll.1 out.poll.2)
  else s.yieldIoTo c.ssl i f fd (pollEvents events) timeout out.real

/-- `poll` after its park: the value of `yield_io_to`, then `revents`. -/
def pollRet (s : Runtime σ γ) (i : Nat) (f : Fiber σ) (events : Nat) (timeout : Int)
    (k : Int → Nat → σ) : Runtime σ γ :=
  let rdy := decide (timeout < 0) || !f.timedOut
  s.resumeApp i f (if rdy then k 1 events else k 0 0)

def accelSubmit (s : Runtime σ γ) (buf : Bytes) : Runtime σ γ :=
  { s with accel :=
    { subHead := s.accel.subHead + 1
      requests := Function.update s.accel.requests s.accel.subHead ⟨buf, 0⟩
      calls := s.accel.calls ++ [.submit s.accel.subHead] } }

/-- `accel_encrypt` up to its park. -/
def accelEncrypt (c : Config σ γ) (s : Runtime σ γ) (i : Nat) (f : Fiber σ) (buf : Bytes) :
    Runtime σ γ :=
  (s.accelSubmit buf).yieldOff c.ssl i f s.accel.subHead

/-- One round of `pthread_mutex_lock`'s loop; `place` is where a failed attempt
waits and `ctx` what the code goes on with. -/
def mutexLockLoop (ssl : SslSyms) (s : Runtime σ γ) (i : Nat) (f : Fiber σ) (m : MutexId)
    (place : Place) (ctx : σ) : Runtime σ γ :=
  let tried := (s.mutexes m).trylock .carrier
  if tried.2 then
    ((s.setMutex m tried.1).setHeld m i (s.held m i + 1)).resumeApp i f ctx
  else s.yieldRun ssl i f place

/-- `pthread_mutex_lock`; under `RT_REALMUTEX` the carrier itself takes the mutex. -/
def mutexLock (c : Config σ γ) (s : Runtime σ γ) (i : Nat) (f : Fiber σ) (m : MutexId)
    (place : Place) (k : Nat → σ) : Option (Runtime σ γ) :=
  if c.gRealmutex then
    match (s.mutexes m).lock .carrier with
    | none => none
    | some (x, true) =>
      some (((s.setMutex m x).setHeld m i (s.held m i + 1)).resumeApp i f (k 0))
    | some (_, false) => some (s.resumeApp i f (k 35))
  else some (s.mutexLockLoop c.ssl i f m place (k 0))

def mutexTrylock (s : Runtime σ γ) (i : Nat) (f : Fiber σ) (m : MutexId) (k : Bool → σ) :
    Runtime σ γ :=
  let tried := (s.mutexes m).trylock .carrier
  if tried.2 then
    ((s.setMutex m tried.1).setHeld m i (s.held m i + 1)).resumeApp i f (k true)
  else s.resumeApp i f (k false)

/-- The unlock itself; a successful one ends the caller's innermost lock. -/
def releaseMutex (s : Runtime σ γ) (i : Nat) (m : MutexId) : Runtime σ γ :=
  let done := (s.mutexes m).unlock .carrier
  if done.2 then (s.setMutex m done.1).setHeld m i (s.held m i - 1) else s

def mutexUnlock (s : Runtime σ γ) (i : Nat) (f : Fiber σ) (m : MutexId) (k : Bool → σ) :
    Runtime σ γ :=
  (s.releaseMutex i m).resumeApp i f (k ((s.mutexes m).unlock .carrier).2)

/-- The deadline a condition wait stores, if it has one. -/
def condDeadline (call : CondCall) (out : Out) : Option Timespec :=
  match call with
  | .wait => none
  | .timedwait abs => some (abs.toRealtime .realtime out.real out.real)
  | .clockwait clk abs =>
    some (abs.toRealtime clk (if clk = .monotonic then out.mono else out.real) out.real)

/-- `fiber_cond_wait` up to its switch, which saves neither `errno` nor the queue. -/
def fiberCondWait (s : Runtime σ γ) (i : Nat) (f : Fiber σ) (cv : CondId) (m : MutexId)
    (call : CondCall) (out : Out) : Runtime σ γ :=
  (s.releaseMutex i m).switchOut i
    { f with
      waitcond := some cv, waitmutex := some m, timedOut := false
      deadline := (condDeadline call out).getD f.deadline
      hasDeadline := (condDeadline call out).isSome
      state := .waitCond, place := .cond, due := condDeadline call out
      waits := f.waits + 1, wake := .none }

/-- What the condition calls return once `fiber_cond_wait` gave its `timed_out`. -/
def condResult (call : CondCall) (timedOut : Bool) : Nat :=
  match call with
  | .wait => 0
  | .timedwait _ | .clockwait _ _ => if timedOut then etimedout else 0

/-- `pthread_cond_signal` and `pthread_cond_broadcast` on the carrier. -/
def condWake (s : Runtime σ γ) (i : Nat) (f : Fiber σ) (cv : CondId) (ctx : σ) :
    Runtime σ γ :=
  (s.wakeFibers (some cv)).resumeApp i f ctx

/-- Plain code: its page writes fault into the detector before they happen. -/
def plain (s : Runtime σ γ) (i : Nat) (f : Fiber σ) (writes : List Nat) (next : γ → γ × σ) :
    Runtime σ γ :=
  { s with det := s.det.stores f.df writes, mem := (next s.mem).1 }.resumeApp i f
    (next s.mem).2

/-- The thread function returns: `fib_entry` sets `F_DONE` and the fiber's link
is the scheduler. -/
def exit (s : Runtime σ γ) (i : Nat) (f : Fiber σ) : Runtime σ γ :=
  s.switchOut i { f with state := .done }

/-- The next thing the running fiber does: its code's next call from the start,
or the rest of the call it was parked in. -/
def exec (c : Config σ γ) (s : Runtime σ γ) (i : Nat) (f : Fiber σ) (out : Out) :
    Option (Runtime σ γ) :=
  match f.place, c.app.code f.ctx with
  | .app, .code writes next => some (s.plain i f writes next)
  | .app, .io op fd k => s.io c i f op fd k out.io
  | .handlerLock, .io (.read n) fd k => s.hlAcquire c.ssl i f n fd k out.io
  | .io, .io op fd k => s.ioLoop c.ssl i f op fd k out.io
  | .app, .poll fd events timeout k => some (s.poll c i f fd events timeout k out)
  | .poll, .poll _ events timeout k => some (s.pollRet i f events timeout k)
  | .app, .accelEncrypt buf _ => some (s.accelEncrypt c i f buf)
  | .offload id, .accelEncrypt _ k => some (s.resumeApp i f (k (s.accel.requests id).buf))
  | .app, .mutexLock m k => s.mutexLock c i f m .lock k
  | .lock, .mutexLock m k => some (s.mutexLockLoop c.ssl i f m .lock (k 0))
  | .app, .mutexTrylock m k => some (s.mutexTrylock i f m k)
  | .app, .mutexUnlock m k => some (s.mutexUnlock i f m k)
  | .app, .condWait cv m call _ => some (s.fiberCondWait i f cv m call out)
  | .relock expired, .condWait _ m call k =>
    s.mutexLock c i f m (.relock expired) fun _ => k (condResult call expired)
  | .app, .condSignal cv k => some (s.condWake i f cv k)
  | .app, .condBroadcast cv k => some (s.condWake i f cv k)
  | .app, .errPut e k =>
    some ({ s with errq := s.errq.put ⟨e.packed, f.slot⟩ }.resumeApp i f k)
  | .app, .errGet k => some ({ s with errq := s.errq.get.2 }.resumeApp i f (k s.errq.get.1))
  | .app, .errClear k => some ({ s with errq := [] }.resumeApp i f k)
  | .app, .close fd k => some ({ s with epoll := s.epoll.ctlDel fd }.resumeApp i f k)
  | .app, .ret => some (s.exit i f)
  | _, _ => none

end Runtime

end TransparentOffload
