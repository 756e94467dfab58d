import Mathlib.Logic.Function.Basic
import TransparentOffload.Lib.Run

set_option autoImplicit false

/- The interposed functions as a thread of the process calls them: which of them goes
to libc or libaccel, with what arguments and with what result. `cur` is the
thread's `cur_fib`; the calls of a fiber end here in `fiber`. Pointers, handles and
results are numbers, and each `real_*` pointer is resolved. -/
namespace TransparentOffload.Preload

/-- The interposed functions with their arguments; each also names the function of
libc or libaccel that it stands before. -/
inductive LibCall
  | pthreadCreate (thread attr fn arg : Nat)
  | pthreadDetach (t : Nat)
  | pthreadSelf
  | pthreadGetattrNp (t attr : Nat)
  | read (fd buf n : Nat)
  | write (fd buf n : Nat)
  | recv (fd buf n flags : Nat)
  | send (fd buf n flags : Nat)
  | recvfrom (fd buf n flags sa sl : Nat)
  | sendto (fd buf n flags sa sl : Nat)
  | poll (p nfds : Nat) (timeout : Int)
  | accept (fd a l : Nat)
  | accept4 (fd a l fl : Nat)
  | accelEncrypt (buf n : Nat)
  | pthreadMutexLock (m : Nat)
  | pthreadMutexTrylock (m : Nat)
  | pthreadMutexUnlock (m : Nat)
  | pthreadKeyCreate (k d : Nat)
  | pthreadSetspecific (k v : Nat)
  | pthreadGetspecific (k : Nat)
  | pthreadCondWait (c m : Nat)
  | pthreadCondTimedwait (c m t : Nat)
  | pthreadCondClockwait (c m clk t : Nat)
  | pthreadCondSignal (c : Nat)
  | pthreadCondBroadcast (c : Nat)
  | pthreadRwlockRdlock (rw : Nat)
  | pthreadRwlockWrlock (rw : Nat)
  | pthreadRwlockUnlock (rw : Nat)
  | pthreadRwlockTryrdlock (rw : Nat)
  | pthreadRwlockTrywrlock (rw : Nat)
  deriving DecidableEq, Repr

def LibCall.isDetach : LibCall → Bool
  | .pthreadDetach _ => true
  | _ => false

/-- The environment variables `init` reads for the gates of the interposers. -/
structure Env where
  rtNofiber : Bool
  rtPool : Bool
  rtNocond : Bool
  rtNorw : Bool
  rtNotls : Bool
  rtFiberself : Bool
  rtNodetach : Bool
  rtNomutex : Bool
  rtNoio : Bool
  rtPassive : Bool
  deriving DecidableEq, Repr

/-- The globals the interposers test and set. `pushed` are the conditions put into
the wake ring by real threads, oldest first. -/
structure Globals where
  getenvNofiber : Bool
  gPool : Bool
  gNocond : Bool
  gNorw : Bool
  gNotls : Bool
  gFiberself : Bool
  gNodetach : Bool
  gNomutex : Bool
  gNoio : Bool
  runtimeReady : Bool
  gServing : Bool
  gConnFibers : Nat
  newn : Nat
  nfib : Nat
  pushed : List Nat
  deriving DecidableEq, Repr

/-- `init`. -/
def Globals.init (env : Env) : Globals :=
  { getenvNofiber := env.rtNofiber, gPool := env.rtPool
    gNocond := env.rtNocond || env.rtPassive, gNorw := env.rtNorw || env.rtPassive
    gNotls := env.rtNotls || env.rtPassive, gFiberself := env.rtFiberself
    gNodetach := env.rtNodetach || env.rtPassive, gNomutex := env.rtNomutex || env.rtPassive
    gNoio := env.rtNoio || env.rtPassive, runtimeReady := true, gServing := false
    gConnFibers := 0, newn := 0, nfib := 0, pushed := [] }

/-- What is left of a call: it returns, calls the underlying function, reads or
writes the globals, or goes on with the state of its fiber. -/
inductive Prog
  | ret (r : Int)
  | real (c : LibCall) (k : Int → Prog)
  | get (k : Globals → Prog)
  | set (f : Globals → Globals) (k : Prog)
  | fiber

/-- `return real_f(...)`. -/
def Prog.tail (c : LibCall) : Prog := .real c .ret

section Interposers

variable (cur : Option Nat)

/-- The fiber path queues the new fiber, if there is room, and returns 0. -/
def pthreadCreate (thread attr fn arg : Nat) : Prog := .get fun g =>
  if g.getenvNofiber || !g.runtimeReady || (!g.gServing && !g.gPool) || cur.isSome then
    .tail (.pthreadCreate thread attr fn arg)
  else
    .set (fun g => { g with newn := if g.newn < 8192 then g.newn + 1 else g.newn }) <|
      .set (fun g => { g with gConnFibers := g.gConnFibers + 1 }) (.ret 0)

def pthreadDetach (t : Nat) : Prog := .get fun g =>
  if g.gNodetach then .tail (.pthreadDetach t)
  else if g.runtimeReady then .ret 0
  else .tail (.pthreadDetach t)

/-- `read`, `write` and the four vio calls pass through for a thread without a fiber. -/
def ioCall (c : LibCall) : Prog := .get fun g =>
  if g.gNoio then .tail c else if cur.isNone then .tail c else .fiber

def read (fd buf n : Nat) : Prog := ioCall cur (.read fd buf n)
def write (fd buf n : Nat) : Prog := ioCall cur (.write fd buf n)
def recv (fd buf n flags : Nat) : Prog := ioCall cur (.recv fd buf n flags)
def send (fd buf n flags : Nat) : Prog := ioCall cur (.send fd buf n flags)
def recvfrom (fd buf n flags sa sl : Nat) : Prog := ioCall cur (.recvfrom fd buf n flags sa sl)
def sendto (fd buf n flags sa sl : Nat) : Prog := ioCall cur (.sendto fd buf n flags sa sl)

def poll (p nfds : Nat) (timeout : Int) : Prog := .get fun g =>
  if g.gNoio || cur.isNone || decide (nfds ≠ 1) then .tail (.poll p nfds timeout) else .fiber

def accelEncrypt (buf n : Nat) : Prog :=
  if cur.isNone then .tail (.accelEncrypt buf n) else .fiber

def pthreadMutexLock (m : Nat) : Prog := .get fun g =>
  if g.gNomutex then .tail (.pthreadMutexLock m)
  else if cur.isNone then .tail (.pthreadMutexLock m)
  else .fiber

def pthreadMutexTrylock (m : Nat) : Prog := .tail (.pthreadMutexTrylock m)
def pthreadMutexUnlock (m : Nat) : Prog := .tail (.pthreadMutexUnlock m)

/-- `accept` and `accept4`. -/
def acceptCall (c : LibCall) : Prog := .real c fun r =>
  if r ≥ 0 then .set (fun g => { g with gServing := true }) (.ret r) else .ret r

def accept (fd a l : Nat) : Prog := acceptCall (.accept fd a l)
def accept4 (fd a l fl : Nat) : Prog := acceptCall (.accept4 fd a l fl)

def pthreadKeyCreate (k d : Nat) : Prog := .tail (.pthreadKeyCreate k d)

/-- The two calls on a key, which a fiber has a table of its own for. -/
def keyCall (k : Nat) (c : LibCall) : Prog := .get fun g =>
  if !g.gNotls && cur.isSome && decide (k < 128) then .fiber else .tail c

def pthreadSetspecific (k v : Nat) : Prog := keyCall cur k (.pthreadSetspecific k v)
def pthreadGetspecific (k : Nat) : Prog := keyCall cur k (.pthreadGetspecific k)

/-- On success a fiber then sets its own stack in `attr`. -/
def pthreadGetattrNp (t attr : Nat) : Prog := .real (.pthreadGetattrNp t attr) fun rc =>
  if rc = 0 ∧ cur.isSome then .fiber else .ret rc

def pthreadSelf : Prog := .get fun g =>
  if g.gFiberself && cur.isSome then .fiber else .tail .pthreadSelf

/-- The three condition waits. -/
def condWait (c : LibCall) : Prog := .get fun g =>
  if g.gNocond || cur.isNone then .tail c else .fiber

def pthreadCondWait (c m : Nat) : Prog := condWait cur (.pthreadCondWait c m)
def pthreadCondTimedwait (c m t : Nat) : Prog := condWait cur (.pthreadCondTimedwait c m t)
def pthreadCondClockwait (c m clk t : Nat) : Prog :=
  condWait cur (.pthreadCondClockwait c m clk t)

/-- `pthread_cond_signal` and `pthread_cond_broadcast`: the real call, then the
fibers are woken, by the carrier itself or through the ring if there are any. -/
def condWake (cv : Nat) (c : LibCall) : Prog := .get fun g =>
  if g.gNocond then .tail c
  else .real c fun r =>
    if cur.isSome then .fiber
    else .get fun g =>
      if g.nfib ≠ 0 then .set (fun g => { g with pushed := g.pushed ++ [cv] }) (.ret r)
      else .ret r

def pthreadCondSignal (c : Nat) : Prog := condWake cur c (.pthreadCondSignal c)
def pthreadCondBroadcast (c : Nat) : Prog := condWake cur c (.pthreadCondBroadcast c)

/-- `pthread_rwlock_rdlock` and `pthread_rwlock_wrlock`. -/
def rwlockCall (c : LibCall) : Prog := .get fun g =>
  if g.gNorw || cur.isNone then .tail c else .fiber

def pthreadRwlockRdlock (rw : Nat) : Prog := rwlockCall cur (.pthreadRwlockRdlock rw)
def pthreadRwlockWrlock (rw : Nat) : Prog := rwlockCall cur (.pthreadRwlockWrlock rw)
def pthreadRwlockUnlock (rw : Nat) : Prog := .tail (.pthreadRwlockUnlock rw)
def pthreadRwlockTryrdlock (rw : Nat) : Prog := .tail (.pthreadRwlockTryrdlock rw)
def pthreadRwlockTrywrlock (rw : Nat) : Prog := .tail (.pthreadRwlockTrywrlock rw)

/-- The function the preloaded library puts before each libc function. -/
def interpose : LibCall → Prog
  | .pthreadCreate thread attr fn arg => pthreadCreate cur thread attr fn arg
  | .pthreadDetach t => pthreadDetach t
  | .pthreadSelf => pthreadSelf cur
  | .pthreadGetattrNp t attr => pthreadGetattrNp cur t attr
  | .read fd buf n => read cur fd buf n
  | .write fd buf n => write cur fd buf n
  | .recv fd buf n flags => recv cur fd buf n flags
  | .send fd buf n flags => send cur fd buf n flags
  | .recvfrom fd buf n flags sa sl => recvfrom cur fd buf n flags sa sl
  | .sendto fd buf n flags sa sl => sendto cur fd buf n flags sa sl
  | .poll p nfds timeout => poll cur p nfds timeout
  | .accept fd a l => accept fd a l
  | .accept4 fd a l fl => accept4 fd a l fl
  | .accelEncrypt buf n => accelEncrypt cur buf n
  | .pthreadMutexLock m => pthreadMutexLock cur m
  | .pthreadMutexTrylock m => pthreadMutexTrylock m
  | .pthreadMutexUnlock m => pthreadMutexUnlock m
  | .pthreadKeyCreate k d => pthreadKeyCreate k d
  | .pthreadSetspecific k v => pthreadSetspecific cur k v
  | .pthreadGetspecific k => pthreadGetspecific cur k
  | .pthreadCondWait c m => pthreadCondWait cur c m
  | .pthreadCondTimedwait c m t => pthreadCondTimedwait cur c m t
  | .pthreadCondClockwait c m clk t => pthreadCondClockwait cur c m clk t
  | .pthreadCondSignal c => pthreadCondSignal cur c
  | .pthreadCondBroadcast c => pthreadCondBroadcast cur c
  | .pthreadRwlockRdlock rw => pthreadRwlockRdlock cur rw
  | .pthreadRwlockWrlock rw => pthreadRwlockWrlock cur rw
  | .pthreadRwlockUnlock rw => pthreadRwlockUnlock rw
  | .pthreadRwlockTryrdlock rw => pthreadRwlockTryrdlock rw
  | .pthreadRwlockTrywrlock rw => pthreadRwlockTrywrlock rw

end Interposers

/-- Without the library each call is the libc function itself. -/
def direct (_ : Option Nat) (c : LibCall) : Prog := .tail c

/-- Where a call comes to a stop. -/
inductive Stop
  | returned (r : Int)
  | waits (c : LibCall) (k : Int → Prog)
  | fiber

def Prog.exec : Prog → Globals → Globals × Stop
  | .ret r, g => (g, .returned r)
  | .real c k, g => (g, .waits c k)
  | .get k, g => (k g).exec g
  | .set f k, g => k.exec (f g)
  | .fiber, g => (g, .fiber)

/-- A thread calls an underlying function, or gets the result of its own call. -/
inductive Event
  | called (t : Nat) (c : LibCall)
  | returned (t : Nat) (r : Int)
  deriving DecidableEq, Repr

/-- The process: `pending` is what a thread that is in an underlying function does
after it. -/
structure Process where
  globals : Globals
  curFib : Nat → Option Nat
  pending : Nat → Option (Int → Prog)
  log : List Event

def Process.init (env : Env) : Process :=
  ⟨.init env, fun _ => none, fun _ => none, []⟩

/-- A thread calls an interposed function; the underlying function of a thread's
call returns; the carrier takes in new fibers, or switches to one of them and back. -/
inductive Act
  | call (t : Nat) (c : LibCall)
  | ret (t : Nat) (r : Int)
  | intake
  | resume (t i : Nat)
  | back (t : Nat)
  deriving DecidableEq, Repr

/-- Thread `t` runs on to its next stop. -/
def Process.settle (s : Process) (t : Nat) (p : Prog) : Option Process :=
  match p.exec s.globals with
  | (g, .returned r) =>
    some { s with
      globals := g, pending := Function.update s.pending t none
      log := s.log ++ [.returned t r] }
  | (g, .waits c k) =>
    some { s with
      globals := g, pending := Function.update s.pending t (some k)
      log := s.log ++ [.called t c] }
  | (_, .fiber) => none

def step (impl : Option Nat → LibCall → Prog) (s : Process) : Act → Option Process
  | .call t c =>
    match s.pending t with
    | none => s.settle t (impl (s.curFib t) c)
    | some _ => none
  | .ret t r =>
    match s.pending t with
    | none => none
    | some k => s.settle t (k r)
  | .intake =>
    some { s with globals :=
      { s.globals with nfib := s.globals.nfib + s.globals.newn, newn := 0 } }
  | .resume t i =>
    if i < s.globals.nfib then some { s with curFib := Function.update s.curFib t (some i) }
    else some s
  | .back t => some { s with curFib := Function.update s.curFib t none }

end TransparentOffload.Preload
