import TransparentOffload.Runtime

set_option autoImplicit false

/- Saving and restoring the carrier's thread-local state, the five ways a fiber
switches back to the scheduler, the handler lock, and `wake_fibers`. -/
namespace TransparentOffload

variable {σ γ : Type}

/-- The fiber's half of `tls_save`: `errno` and the drained codes. -/
def Fiber.tlsSave (ssl : SslSyms) (f : Fiber σ) (errno : Errno) (q : ErrQueue) : Fiber σ :=
  { f with
    serr := errno, saved := q
    errbuf := if ssl.errGet then (q.drain []).1 else f.errbuf }

namespace Runtime

/-- Writes the fields of the fiber in slot `i`. -/
def setFiber (s : Runtime σ γ) (i : Nat) (f : Fiber σ) : Runtime σ γ :=
  { s with fibs := Function.update s.fibs i (some f) }

def setSock (s : Runtime σ γ) (fd : Fd) (k : Socket) : Runtime σ γ :=
  { s with socks := Function.update s.socks fd k }

def setMutex (s : Runtime σ γ) (m : MutexId) (x : Mutex) : Runtime σ γ :=
  { s with mutexes := Function.update s.mutexes m x }

/-- Records how many locks of `m` the fiber in slot `i` still has to unlock. -/
def setHeld (s : Runtime σ γ) (m : MutexId) (i : Nat) (n : Nat) : Runtime σ γ :=
  { s with held := Function.update s.held m (Function.update (s.held m) i n) }

/-- `tls_save` drains the queue of the carrier's OS thread. -/
def tlsSave (ssl : SslSyms) (s : Runtime σ γ) : Runtime σ γ :=
  { s with errq := if ssl.errGet then (s.errq.drain []).2 else s.errq }

def tlsRestore (ssl : SslSyms) (s : Runtime σ γ) (f : Fiber σ) : Runtime σ γ :=
  { s with
    errno := f.serr
    errq := if ssl.errGet && ssl.errClear && ssl.errPut then ErrQueue.refill f.slot f.errbuf
      else s.errq }

/-- `fw_fiber_switch(&f->fb,&sched_fb)`: the carrier goes on after its own switch. -/
def switchOut (s : Runtime σ γ) (i : Nat) (f : Fiber σ) : Runtime σ γ :=
  { s.setFiber i f with pc := .back i }

/-- The switch of the `yield_*` functions, after `tls_save`. -/
def yieldSaved (ssl : SslSyms) (s : Runtime σ γ) (i : Nat) (f : Fiber σ) : Runtime σ γ :=
  (s.tlsSave ssl).switchOut i (f.tlsSave ssl s.errno s.errq)

/-- `errno` after the registration: a failing `EPOLL_CTL_MOD` has set it. -/
def armErrno (s : Runtime σ γ) (fd : Fd) : Errno :=
  if s.epoll fd = none then enoent else s.errno

def yieldIo (ssl : SslSyms) (s : Runtime σ γ) (i : Nat) (f : Fiber σ) (place : Place)
    (fd : Fd) (ev : Events) : Runtime σ γ :=
  { s with epoll := s.epoll.arm fd ev i, errno := s.armErrno fd }.yieldSaved ssl i
    { f with
      fd := fd, state := .waitIo, hasDeadline := false, place := place
      asked := ev, due := none, waits := f.waits + 1, wake := .none }

/-- `yield_io_to` up to its switch; the clock is read after the registration. -/
def yieldIoTo (ssl : SslSyms) (s : Runtime σ γ) (i : Nat) (f : Fiber σ) (fd : Fd)
    (ev : Events) (timeoutMs : Int) (now : Timespec) : Runtime σ γ :=
  if timeoutMs < 0 then s.yieldIo ssl i f .poll fd ev
  else
    { s with epoll := s.epoll.arm fd ev i, errno := s.armErrno fd }.yieldSaved ssl i
      { f with
        fd := fd, state := .waitIo, timedOut := false
        deadline := now.afterMs timeoutMs, hasDeadline := true, place := .poll
        asked := ev, due := some (now.afterMs timeoutMs), waits := f.waits + 1
        wake := .none }

def yieldOff (ssl : SslSyms) (s : Runtime σ γ) (i : Nat) (f : Fiber σ) (id : Nat) :
    Runtime σ γ :=
  let f := { f with
    offId := id, state := .waitOff, place := .offload id, waits := f.waits + 1, wake := .none }
  { s.tlsSave ssl with det := (s.det.detPark f.df).1 }.switchOut i
    { f.tlsSave ssl s.errno s.errq with df := (s.det.detPark f.df).2 }

def yieldRun (ssl : SslSyms) (s : Runtime σ γ) (i : Nat) (f : Fiber σ) (place : Place) :
    Runtime σ γ :=
  s.yieldSaved ssl i { f with state := .run, place := place }

/-- `g_enforce||det_conflicts>0`. -/
def enforcing (s : Runtime σ γ) (gEnforce : Bool) : Bool :=
  gEnforce || decide (0 < s.det.detConflicts)

/-- The loop test of `hl_acquire`. -/
def handlerBusy (s : Runtime σ γ) (slot : Nat) : Bool :=
  decide (s.hlockOwner ≠ none) && decide (s.hlockOwner ≠ some slot)

def hlTake (s : Runtime σ γ) (slot : Nat) : Runtime σ γ := { s with hlockOwner := some slot }

def hlRelease (s : Runtime σ γ) (slot : Nat) : Runtime σ γ :=
  if s.hlockOwner = some slot then { s with hlockOwner := none } else s

/-- The body of `wake_fibers` for one fiber. -/
def wakeOne (c : Option CondId) (f : Fiber σ) : Fiber σ :=
  if f.state = .waitCond ∧ f.waitcond = c then
    { f with state := .run, waitcond := none, wake := .cond }
  else f

/-- `wake_fibers`: its loop touches each live entry of `fibs[0..nfib)` alone. -/
def wakeFibers (s : Runtime σ γ) (c : Option CondId) : Runtime σ γ :=
  { s with fibs := fun i => if i < s.nfib then (s.fibs i).map (wakeOne c) else s.fibs i }

@[simp] theorem setFiber_fibs (s : Runtime σ γ) (i : Nat) (f : Fiber σ) :
    (s.setFiber i f).fibs = Function.update s.fibs i (some f) := rfl

end Runtime

end TransparentOffload
