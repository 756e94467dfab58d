import TransparentOffload.Clock
import TransparentOffload.Detector
import TransparentOffload.ErrQueue
import TransparentOffload.Kernel
import TransparentOffload.Lib.TicketRing
import TransparentOffload.Mutex

set_option autoImplicit false

/- The state of the fiber runtime: `struct fiber`, the globals of the runtime,
and the parts of the process its carrier thread works on. Fibers are named by
their slot in `fibs`, which is never reused. The `RT_NO*` switches are off. -/
namespace TransparentOffload

abbrev CondId := Nat
abbrev MutexId := Nat

def maxFib : Nat := 8192
def pendN : Nat := 8192
def etimedout : Nat := 110

inductive FState
  | new
  | run
  | waitIo
  | waitOff
  | waitCond
  | done
  deriving DecidableEq, Repr

/-- Where a fiber is inside the interposed call of its code. `app` is the code
itself; each other place is a `fw_fiber_switch` to the scheduler, named by what
the call does once it is switched back in. -/
inductive Place
  | app
  /-- in `hl_acquire`'s loop, before the first `real_read` -/
  | handlerLock
  /-- in the retry loop of a socket call -/
  | io
  /-- in `yield_io_to` -/
  | poll
  /-- in `yield_off` -/
  | offload (id : Nat)
  /-- in `pthread_mutex_lock`'s loop -/
  | lock
  /-- in `fiber_cond_wait`, before the mutex is taken again -/
  | cond
  /-- in the `pthread_mutex_lock` of `fiber_cond_wait`, with its `timed_out` -/
  | relock (timedOut : Bool)
  deriving DecidableEq, Repr

/-- What ended a wait; kept to state what the waiting call may report. -/
inductive Wake
  | none
  | event
  | offload
  | cond
  | deadline
  deriving DecidableEq, Repr

/-- `struct fiber`, with `ctx` the state of the thread function and `place` the
rest of the saved stack. The last seven fields are history the code has no use
for: the creation number, the bytes received since the last `write`, and of the
last wait its events, its deadline, its count and what ended it; and the error
queue at the last switch-out that saved it. -/
structure Fiber (σ : Type) where
  ctx : σ
  place : Place
  state : FState
  fd : Fd
  offId : Nat
  serr : Errno
  slot : Nat
  errbuf : List Nat
  df : DetFib
  waitcond : Option CondId
  waitmutex : Option MutexId
  deadline : Timespec
  hasDeadline : Bool
  timedOut : Bool
  number : Nat
  got : Nat
  asked : Events
  due : Option Timespec
  waits : Nat
  wake : Wake
  saved : ErrQueue

/-- `calloc`, `f->fn=fn; f->arg=arg; f->state=F_NEW` and `fw_fiber_make`. -/
def Fiber.make {σ : Type} (start : σ) (number : Nat) : Fiber σ :=
  { ctx := start, place := .app, state := .new, fd := 0, offId := 0, serr := 0, slot := 0,
    errbuf := [], df := ⟨0, false⟩, waitcond := none, waitmutex := none,
    deadline := .zero, hasDeadline := false, timedOut := false, number := number, got := 0,
    asked := .empty, due := none, waits := 0, wake := .none, saved := [] }

/-- How a condition wait was called: `pthread_cond_wait`, `pthread_cond_timedwait`
or `pthread_cond_clockwait`. -/
inductive CondCall
  | wait
  | timedwait (abs : Timespec)
  | clockwait (clk : Clock) (abs : Timespec)
  deriving DecidableEq, Repr

/-- One step of a thread function. `code` is plain code between two calls, with
the protected pages it writes; every other constructor is an interposed call
and what the function makes of its result. -/
inductive Call (σ γ : Type)
  | code (writes : List Nat) (next : γ → γ × σ)
  | io (op : IoOp) (fd : Fd) (k : IoRet → σ)
  | poll (fd : Fd) (events : Nat) (timeout : Int) (k : Int → Nat → σ)
  | accelEncrypt (buf : Bytes) (k : Bytes → σ)
  | mutexLock (m : MutexId) (k : Nat → σ)
  | mutexTrylock (m : MutexId) (k : Bool → σ)
  | mutexUnlock (m : MutexId) (k : Bool → σ)
  | condWait (c : CondId) (m : MutexId) (call : CondCall) (k : Nat → σ)
  | condSignal (c : CondId) (k : σ)
  | condBroadcast (c : CondId) (k : σ)
  | errPut (e : ErrCode) (k : σ)
  | errGet (k : Nat → σ)
  | errClear (k : σ)
  | close (fd : Fd) (k : σ)
  | ret

/-- A thread function: its state at `fn(arg)` and its code, over shared memory `γ`. -/
structure App (σ γ : Type) where
  entry : Nat → σ
  code : σ → Call σ γ

/-- Which of the OpenSSL symbols `init` resolved. -/
structure SslSyms where
  errGet : Bool
  errClear : Bool
  errPeek : Bool
  errPut : Bool
  deriving DecidableEq, Repr

/-- `init` with libcrypto loaded: it looks up `ERR_get_error`, `ERR_clear_error`
and `ERR_peek_last_error`; nothing assigns `ssl_err_put`. -/
def SslSyms.init : SslSyms := ⟨true, true, true, false⟩

def SslSyms.absent : SslSyms := ⟨false, false, false, false⟩

/-- The program, the environment switches and the accelerator's transform. -/
structure Config (σ γ : Type) where
  app : App σ γ
  gEnforce : Bool
  gRealmutex : Bool
  ssl : SslSyms
  transform : Bytes → Bytes

/-- One accelerator request: its buffer and how often the device transformed it. -/
structure Request where
  buf : Bytes
  runs : Nat
  deriving DecidableEq, Repr

/-- The calls the runtime makes into libaccel; a poll is listed when it is true. -/
inductive AccelCall
  | submit (id : Nat)
  | done (id : Nat)
  | release (id : Nat)
  deriving DecidableEq, Repr

structure Accel where
  subHead : Nat
  requests : Nat → Request
  calls : List AccelCall

def Accel.empty : Accel := ⟨0, fun _ => ⟨[], 0⟩, []⟩

/-- Where the carrier is in its loop. -/
inductive Pc
  | intake
  | epoll
  | offloads (i : Nat)
  | drain
  | deadlines (i : Nat) (now : Option Timespec)
  | run (i : Nat)
  /-- the fiber of slot `i` is switched in -/
  | slice (i : Nat)
  /-- just after `fw_fiber_switch(&sched_fb,&f->fb)` -/
  | back (i : Nat)
  deriving DecidableEq, Repr

/-- The runtime. `reserved` holds the tickets of real threads that are between
their fetch-and-add and their store; `held` counts, for a mutex and a slot, the
locks of the fiber not yet unlocked; `newqStores` and `fibsStores` list every
index written to the two arrays, and `freed` the fibers freed. -/
structure Runtime (σ γ : Type) where
  newq : List (Fiber σ)
  fibs : Nat → Option (Fiber σ)
  nfib : Nat
  gConnFibers : Nat
  freed : List Nat
  newqStores : List Nat
  fibsStores : List Nat
  pend : Tickets.Ring (Option CondId)
  reserved : List (Nat × CondId)
  hlockOwner : Option Nat
  det : Detector
  errno : Errno
  errq : ErrQueue
  epoll : Epoll
  socks : Fd → Socket
  mutexes : MutexId → Mutex
  held : MutexId → Nat → Nat
  accel : Accel
  mem : γ
  pc : Pc

/-- The runtime when the carrier enters its loop. -/
def Runtime.init {σ γ : Type} (mem : γ) (detOn : Bool) (kinds : MutexId → MutexKind) :
    Runtime σ γ :=
  { newq := [], fibs := fun _ => none, nfib := 0, gConnFibers := 0, freed := [],
    newqStores := [], fibsStores := [], pend := ⟨fun _ => none, 0, 0⟩, reserved := [],
    hlockOwner := none, det := { Detector.off with detOn := detOn }, errno := 0, errq := [],
    epoll := .empty, socks := fun _ => .fresh, mutexes := fun m => .fresh (kinds m),
    held := fun _ _ => 0, accel := .empty, mem := mem, pc := .intake }

end TransparentOffload
