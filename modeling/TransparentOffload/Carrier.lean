import TransparentOffload.Interpose
import TransparentOffload.Lib.Run

set_option autoImplicit false

/- The carrier's loop, one iteration of one of its inner loops at a step, and the
other parties: real threads that create fibers, signal and lock, the peers of the
sockets, and the device. `qmx` makes an enqueue and an intake atomic. -/
namespace TransparentOffload

variable {σ γ : Type}

namespace Runtime

/-- The fiber path of `pthread_create`: it returns 0 whether or not the queue had
room for the new fiber. -/
def pthreadCreate (s : Runtime σ γ) (start : σ) : Runtime σ γ :=
  let f := Fiber.make start s.gConnFibers
  let queued :=
    if s.newq.length < maxFib then
      { s with newq := s.newq ++ [f], newqStores := s.newqStores ++ [s.newq.length] }
    else s
  { queued with gConnFibers := s.gConnFibers + 1 }

@[simp] theorem pthreadCreate_fibs (s : Runtime σ γ) (start : σ) :
    (s.pthreadCreate start).fibs = s.fibs := by
  unfold pthreadCreate; dsimp only; split <;> rfl

@[simp] theorem pthreadCreate_created (s : Runtime σ γ) (start : σ) :
    (s.pthreadCreate start).gConnFibers = s.gConnFibers + 1 := by
  unfold pthreadCreate; dsimp only

@[simp] theorem pthreadCreate_freed (s : Runtime σ γ) (start : σ) :
    (s.pthreadCreate start).freed = s.freed := by
  unfold pthreadCreate; dsimp only; split <;> rfl

@[simp] theorem pthreadCreate_nfib (s : Runtime σ γ) (start : σ) :
    (s.pthreadCreate start).nfib = s.nfib := by
  unfold pthreadCreate; dsimp only; split <;> rfl

@[simp] theorem pthreadCreate_fibsStores (s : Runtime σ γ) (start : σ) :
    (s.pthreadCreate start).fibsStores = s.fibsStores := by
  unfold pthreadCreate; dsimp only; split <;> rfl

/-- One round of the intake loop: `f->slot=nfib; fibs[nfib++]=f`. The table goes on past
`MAXFIB` here; what the stores beyond it come to is not modelled. -/
def intakeOne (s : Runtime σ γ) (f : Fiber σ) : Runtime σ γ :=
  { s with
    fibs := Function.update s.fibs s.nfib (some { f with slot := s.nfib })
    nfib := s.nfib + 1
    fibsStores := s.fibsStores ++ [s.nfib] }

def intake (s : Runtime σ γ) : Runtime σ γ :=
  { s.newq.foldl intakeOne s with newq := [], pc := .epoll }

/-- The readiness loop's body for one reported event. -/
def wakeIo (f : Fiber σ) : Fiber σ :=
  if f.state = .waitIo then { f with state := .run, wake := .event } else f

/-- One armed registration reported by `epoll_wait` and handled. -/
def deliver (s : Runtime σ γ) (fd : Fd) : Runtime σ γ :=
  match s.epoll.pending fd with
  | none => s
  | some i =>
    { s with
      epoll := s.epoll.disarm fd
      fibs := Function.update s.fibs i ((s.fibs i).map wakeIo) }

def epollWait (s : Runtime σ γ) (fds : List Fd) : Runtime σ γ :=
  { fds.foldl deliver s with pc := .offloads 0 }

/-- The completion loop's body for a fiber in `F_WAIT_OFF` whose poll is true. -/
def offloadDone (s : Runtime σ γ) (i : Nat) (f : Fiber σ) : Runtime σ γ :=
  let calls := s.accel.calls ++ [AccelCall.done f.offId, AccelCall.release f.offId]
  { s with accel := { s.accel with calls := calls } }.setFiber i
    { f with state := .run, wake := .offload }

def offloadStep (s : Runtime σ γ) (i : Nat) (done : Bool) : Runtime σ γ :=
  if i < s.nfib then
    let s := { s with pc := .offloads (i + 1) }
    match s.fibs i with
    | none => s
    | some f => if f.state = .waitOff ∧ done then s.offloadDone i f else s
  else { s with pc := .drain }

def drainStep (s : Runtime σ γ) : Runtime σ γ :=
  if s.pend.tail < s.pend.head then
    { s with pend := s.pend.advance }.wakeFibers (s.pend.front pendN)
  else { s with pc := .deadlines 0 none }

/-- The deadline loop's body for a fiber whose deadline has passed. -/
def expire (s : Runtime σ γ) (i : Nat) (f : Fiber σ) : Runtime σ γ :=
  let epoll := if f.state = .waitIo then s.epoll.ctlDel f.fd else s.epoll
  { s with epoll := epoll }.setFiber i
    { f with timedOut := true, state := .run, waitcond := none, wake := .deadline }

/-- One round of the deadline loop; the clock is read once a pass, at the first
fiber that needs it. -/
def deadlineStep (s : Runtime σ γ) (i : Nat) (now : Option Timespec) (clock : Timespec) :
    Runtime σ γ :=
  if i < s.nfib then
    match s.fibs i with
    | none => { s with pc := .deadlines (i + 1) now }
    | some f =>
      if (f.state = .waitCond ∨ f.state = .waitIo) ∧ f.hasDeadline then
        let s := { s with pc := .deadlines (i + 1) (some (now.getD clock)) }
        if f.deadline.reached (now.getD clock) then s.expire i f else s
      else { s with pc := .deadlines (i + 1) now }
  else { s with pc := .run 0 }

/-- What a fiber does first when it is switched back in: the rest of the yield
it was parked by. -/
def switchIn (c : Config σ γ) (s : Runtime σ γ) (i : Nat) (f : Fiber σ) : Runtime σ γ :=
  let f := { f with df := { f.df with active := true } }
  let s := { s with det := s.det.detReprotect, pc := .slice i }
  match f.place with
  | .app => s.setFiber i f
  | .cond => s.setFiber i { f with hasDeadline := false, place := .relock f.timedOut }
  | .poll => (s.tlsRestore c.ssl f).setFiber i { f with hasDeadline := false }
  | .handlerLock | .io | .offload _ | .lock | .relock _ => (s.tlsRestore c.ssl f).setFiber i f

def runStep (c : Config σ γ) (s : Runtime σ γ) (i : Nat) : Runtime σ γ :=
  if i < s.nfib then
    match s.fibs i with
    | none => { s with pc := .run (i + 1) }
    | some f =>
      if f.state = .new ∨ f.state = .run then s.switchIn c i f
      else { s with pc := .run (i + 1) }
  else { s with pc := .intake }

/-- `cur_fib=NULL`, and `fw_fiber_free`, `free` and `fibs[i]=NULL` for a done fiber. -/
def reap (s : Runtime σ γ) (i : Nat) : Runtime σ γ :=
  let s := { s with pc := .run (i + 1) }
  match s.fibs i with
  | none => s
  | some f =>
    if f.state = .done then
      { s with
        fibs := Function.update s.fibs i none
        fibsStores := s.fibsStores ++ [i]
        freed := s.freed ++ [f.number] }
    else s

/-- One step of the carrier thread. -/
def carrier (c : Config σ γ) (s : Runtime σ γ) (out : Out) : Option (Runtime σ γ) :=
  match s.pc with
  | .intake => some s.intake
  | .epoll => some (s.epollWait out.events)
  | .offloads i => some (s.offloadStep i out.done)
  | .drain => some s.drainStep
  | .deadlines i now => some (s.deadlineStep i now out.real)
  | .run i => some (s.runStep c i)
  | .slice i =>
    match s.fibs i with
    | none => none
    | some f => s.exec c i f out
  | .back i => some (s.reap i)

/-- The two halves of a real thread's `pthread_cond_signal` or `_broadcast`: the
fetch-and-add, made only if fibers exist, and the store. -/
def condReserve (s : Runtime σ γ) (cv : CondId) : Runtime σ γ :=
  if s.nfib = 0 then s
  else { s with pend := s.pend.reserve, reserved := s.reserved ++ [(s.pend.head, cv)] }

def condPublish (s : Runtime σ γ) (ticket : Nat) (cv : CondId) : Option (Runtime σ γ) :=
  if (ticket, cv) ∈ s.reserved then
    some { s with
      pend := s.pend.publish pendN ticket (some cv)
      reserved := s.reserved.erase (ticket, cv) }
  else none

/-- The device transforms a submitted buffer in place. -/
def device (c : Config σ γ) (s : Runtime σ γ) (id : Nat) : Option (Runtime σ γ) :=
  if id < s.accel.subHead then
    let r := s.accel.requests id
    let requests := Function.update s.accel.requests id ⟨c.transform r.buf, r.runs + 1⟩
    some { s with accel := { s.accel with requests := requests } }
  else none

end Runtime

/-- One step of one party. -/
inductive Act
  | create (arg : Nat)
  | condReserve (cv : CondId)
  | condPublish (ticket : Nat) (cv : CondId)
  | threadLock (t : Nat) (m : MutexId)
  | threadUnlock (t : Nat) (m : MutexId)
  | arrive (fd : Fd) (bs : Bytes)
  | hangup (fd : Fd)
  | device (id : Nat)
  | carrier (out : Out)

def step (c : Config σ γ) (s : Runtime σ γ) : Act → Option (Runtime σ γ)
  | .create arg => some (s.pthreadCreate (c.app.entry arg))
  | .condReserve cv => some (s.condReserve cv)
  | .condPublish ticket cv => s.condPublish ticket cv
  | .threadLock t m =>
    match (s.mutexes m).lock (.real t) with
    | none => none
    | some (x, _) => some (s.setMutex m x)
  | .threadUnlock t m => some (s.setMutex m ((s.mutexes m).unlock (.real t)).1)
  | .arrive fd bs => some (s.setSock fd ((s.socks fd).arrive bs))
  | .hangup fd => some (s.setSock fd (s.socks fd).hangup)
  | .device id => s.device c id
  | .carrier out => s.carrier c out

/-- The state a schedule leads to. -/
abbrev runActs (c : Config σ γ) (s : Runtime σ γ) (acts : List Act) : Option (Runtime σ γ) :=
  Machine.run (step c) s acts

end TransparentOffload
