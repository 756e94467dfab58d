import TransparentOffload.Formed
import TransparentOffload.Lib.SharedLock

set_option autoImplicit false

/- Readers–writer locks between fibers and real threads. The library's lock knows its
writer by the OS thread, which is the carrier for every fiber; a fiber that cannot have
a lock yields and tries again at its next turn. -/
namespace TransparentOffload

open SharedLock (Mode)

variable {σ γ : Type}

abbrev RwId := Nat

/-- The library's `pthread_rwlock_t`: the readers inside, and `__cur_writer`. -/
structure RwLock where
  readers : Nat
  curWriter : Option OsThread
  deriving DecidableEq, Repr

namespace RwLock

def fresh : RwLock := ⟨0, none⟩

/-- The library's `pthread_rwlock_tryrdlock`. It may also refuse while nobody writes:
when its count is full, and for some kinds of lock while a writer waits. -/
def tryrdlock (x : RwLock) (admits : Bool) : RwLock × Bool :=
  if x.curWriter = none ∧ admits then ({ x with readers := x.readers + 1 }, true) else (x, false)

/-- The library's `pthread_rwlock_trywrlock`. -/
def trywrlock (x : RwLock) (t : OsThread) : RwLock × Bool :=
  if x.curWriter = none ∧ x.readers = 0 then ({ x with curWriter := some t }, true) else (x, false)

def trylock (x : RwLock) (t : OsThread) (admits : Bool) : Mode → RwLock × Bool
  | .read => x.tryrdlock admits
  | .write => x.trywrlock t

/-- The library's `pthread_rwlock_unlock`: the half is chosen by `__cur_writer`. -/
def unlock (x : RwLock) (t : OsThread) : RwLock :=
  if x.curWriter = some t then { x with curWriter := none } else { x with readers := x.readers - 1 }

end RwLock

/-- Who holds a lock: a fiber, by its slot, or a real thread. -/
inductive Party
  | fiber (i : Nat)
  | thread (t : Nat)
  deriving DecidableEq, Repr

/-- The thread the library takes a party for. -/
def Party.osThread : Party → OsThread
  | .fiber _ => .carrier
  | .thread t => .real t

/-- The runtime with the locks, what each fiber asks for in the loop of
`pthread_rwlock_rdlock` or `_wrlock`, and who holds what; no step reads `holds`. -/
structure RwRuntime (σ γ : Type) where
  runtime : Runtime σ γ
  rwlocks : RwId → RwLock
  asking : Nat → Option (RwId × Mode)
  holds : RwId → List (Party × Mode)

def RwRuntime.init (mem : γ) (detOn : Bool) (kinds : MutexId → MutexKind) : RwRuntime σ γ :=
  ⟨.init mem detOn kinds, fun _ => .fresh, fun _ => none, fun _ => []⟩

namespace RwRuntime

/-- The lock `rw` is now `x`, and `p` is inside. -/
def enter (s : RwRuntime σ γ) (rw : RwId) (x : RwLock) (p : Party) (mode : Mode) :
    RwRuntime σ γ :=
  { s with
    rwlocks := Function.update s.rwlocks rw x
    holds := Function.update s.holds rw ((p, mode) :: s.holds rw) }

/-- One round of `while(real_rwlock_try..lock(rw)!=0) yield_run()`. -/
def lockLoop (ssl : SslSyms) (s : RwRuntime σ γ) (i : Nat) (f : Fiber σ) (rw : RwId)
    (mode : Mode) (admits : Bool) : RwRuntime σ γ :=
  let tried := (s.rwlocks rw).trylock .carrier admits mode
  if tried.2 then
    { s.enter rw tried.1 (.fiber i) mode with
      runtime := s.runtime.resumeApp i f f.ctx
      asking := Function.update s.asking i none }
  else
    { s with
      runtime := s.runtime.yieldRun ssl i f .lock
      asking := Function.update s.asking i (some (rw, mode)) }

def pthreadRwlockRdlock (ssl : SslSyms) (s : RwRuntime σ γ) (i : Nat) (f : Fiber σ)
    (rw : RwId) (admits : Bool) : RwRuntime σ γ := s.lockLoop ssl i f rw .read admits

def pthreadRwlockWrlock (ssl : SslSyms) (s : RwRuntime σ γ) (i : Nat) (f : Fiber σ)
    (rw : RwId) (admits : Bool) : RwRuntime σ γ := s.lockLoop ssl i f rw .write admits

/-- A call that answers at once: `pthread_rwlock_tryrdlock` and `_trywrlock`, and what
a real thread's calls come to when they return. -/
def tryEnter (s : RwRuntime σ γ) (p : Party) (rw : RwId) (mode : Mode) (admits : Bool) :
    RwRuntime σ γ × Bool :=
  let tried := (s.rwlocks rw).trylock p.osThread admits mode
  if tried.2 then (s.enter rw tried.1 p mode, true) else (s, false)

def pthreadRwlockTryrdlock (s : RwRuntime σ γ) (p : Party) (rw : RwId) (admits : Bool) :
    RwRuntime σ γ × Bool := s.tryEnter p rw .read admits

def pthreadRwlockTrywrlock (s : RwRuntime σ γ) (p : Party) (rw : RwId) (admits : Bool) :
    RwRuntime σ γ × Bool := s.tryEnter p rw .write admits

/-- The hold a party gives up when it unlocks. -/
def ownHold (s : RwRuntime σ γ) (p : Party) (rw : RwId) : Party × Mode :=
  if (p, Mode.write) ∈ s.holds rw then (p, .write) else (p, .read)

def pthreadRwlockUnlock (s : RwRuntime σ γ) (p : Party) (rw : RwId) : RwRuntime σ γ :=
  { s with
    rwlocks := Function.update s.rwlocks rw ((s.rwlocks rw).unlock p.osThread)
    holds := Function.update s.holds rw ((s.holds rw).erase (s.ownHold p rw)) }

/-- The fiber that is switched in, when it is in its own code. -/
def inCode (s : RwRuntime σ γ) : Option (Nat × Fiber σ) :=
  match s.runtime.pc with
  | .slice i =>
    match s.runtime.fibs i, s.asking i with
    | some f, none => if f.place = .app then some (i, f) else none
    | _, _ => none
  | _ => none

/-- The fiber that is switched in, when it is in the loop of a lock it asks for. -/
def inLoop (s : RwRuntime σ γ) : Option (Nat × Fiber σ × RwId × Mode) :=
  match s.runtime.pc with
  | .slice i =>
    match s.runtime.fibs i, s.asking i with
    | some f, some (rw, mode) => some (i, f, rw, mode)
    | _, _ => none
  | _ => none

/-- A step of any party of the runtime; the carrier's next one is not free while the
fiber it has switched in is in the loop. -/
def runtimeStep (c : Config σ γ) (s : RwRuntime σ γ) (a : Act) : Option (RwRuntime σ γ) :=
  match a, s.inLoop with
  | .carrier _, some _ => none
  | _, _ => (step c s.runtime a).map fun t => { s with runtime := t }

end RwRuntime

/-- What a call on a lock, or any other party, does. `admits` is what the library says
to a reader while nobody writes. -/
inductive RwAct
  | rdlock (rw : RwId) (admits : Bool)
  | wrlock (rw : RwId)
  | tryrdlock (rw : RwId) (admits : Bool)
  | trywrlock (rw : RwId)
  | unlock (rw : RwId)
  /-- the next round of the loop the fiber is in -/
  | again (admits : Bool)
  | threadLock (t : Nat) (rw : RwId) (mode : Mode) (admits : Bool)
  | threadUnlock (t : Nat) (rw : RwId)
  | act (a : Act)

def rwStep (c : Config σ γ) (s : RwRuntime σ γ) : RwAct → Option (RwRuntime σ γ)
  | .rdlock rw admits => s.inCode.map fun (i, f) => s.pthreadRwlockRdlock c.ssl i f rw admits
  | .wrlock rw => s.inCode.map fun (i, f) => s.pthreadRwlockWrlock c.ssl i f rw true
  | .tryrdlock rw admits =>
    s.inCode.map fun (i, _) => (s.pthreadRwlockTryrdlock (.fiber i) rw admits).1
  | .trywrlock rw => s.inCode.map fun (i, _) => (s.pthreadRwlockTrywrlock (.fiber i) rw true).1
  | .unlock rw => s.inCode.map fun (i, _) => s.pthreadRwlockUnlock (.fiber i) rw
  | .again admits => s.inLoop.map fun (i, f, rw, mode) => s.lockLoop c.ssl i f rw mode admits
  | .threadLock t rw mode admits =>
    if (s.tryEnter (.thread t) rw mode admits).2 then
      some (s.tryEnter (.thread t) rw mode admits).1
    else none
  | .threadUnlock t rw => some (s.pthreadRwlockUnlock (.thread t) rw)
  | .act a => s.runtimeStep c a

def Holding (s : RwRuntime σ γ) (p : Party) (rw : RwId) : Prop :=
  (p, Mode.read) ∈ s.holds rw ∨ (p, Mode.write) ∈ s.holds rw

/-- What POSIX asks of an unlock: the caller holds the lock. -/
def OwnUnlock (s : RwRuntime σ γ) : RwAct → Prop
  | .unlock rw =>
    match s.inCode with
    | some (i, _) => Holding s (.fiber i) rw
    | none => True
  | .threadUnlock t rw => Holding s (.thread t) rw
  | _ => True

instance (s : RwRuntime σ γ) (p : Party) (rw : RwId) : Decidable (Holding s p rw) :=
  inferInstanceAs (Decidable (_ ∨ _))

instance (s : RwRuntime σ γ) : ∀ a, Decidable (OwnUnlock s a)
  | .unlock rw =>
    match at_ : s.inCode with
    | some (i, _) => decidable_of_iff (Holding s (.fiber i) rw) (by simp [OwnUnlock, at_])
    | none => isTrue (by simp [OwnUnlock, at_])
  | .threadUnlock t rw => inferInstanceAs (Decidable (Holding s (.thread t) rw))
  | .rdlock .. | .wrlock _ | .tryrdlock .. | .trywrlock _ | .again _ | .threadLock .. | .act _ =>
    isTrue trivial

/-- A fiber that asks for a lock is runnable, in the loop of the call. -/
def AsksRunnable (s : RwRuntime σ γ) : Prop :=
  ∀ i rw mode, s.asking i = some (rw, mode) →
    ∃ f, s.runtime.fibs i = some f ∧ f.Runnable ∧ f.place = .lock

/-- The locks say who holds them. -/
def LocksAgree (s : RwRuntime σ γ) : Prop :=
  ∀ rw, SharedLock.Agrees Party.osThread (s.rwlocks rw).readers (s.rwlocks rw).curWriter
    (s.holds rw)

structure RwInv (c : Config σ γ) (s : RwRuntime σ γ) : Prop where
  formed : Formed c s.runtime
  agree : LocksAgree s
  asks : AsksRunnable s

theorem init_rwInv (c : Config σ γ) (mem : γ) (detOn : Bool) (kinds : MutexId → MutexKind) :
    RwInv c (.init mem detOn kinds) where
  formed := init_formed c mem detOn kinds
  agree := fun _ => .nil
  asks := nofun

/-- The table after the fiber that is switched in has written its own entry. -/
theorem Formed.rewrite {c : Config σ γ} {s t : Runtime σ γ} {i : Nat} {f g : Fiber σ}
    (formed : Formed c s) (live : s.fibs i = some f)
    (fibs : t.fibs = Function.update s.fibs i (some g)) (newq : t.newq = s.newq)
    (nfib : t.nfib = s.nfib) (pc : ∀ j, t.pc = .slice j → j = i) (slot : g.slot = f.slot)
    (runnable : g.Runnable) (fits : g.Fits) : Formed c t := by
  refine ⟨?_, ?_, ?_, ?_⟩
  · intro j h there
    rw [fibs] at there
    rw [nfib]
    rcases update_fiber there with ⟨rfl, rfl⟩ | ⟨_, old⟩
    · rw [slot]
      exact formed.slots j f live
    · exact formed.slots j h old
  · rw [newq]
    exact formed.queue
  · intro j inside
    rw [pc j inside]
    exact ⟨g, by rw [fibs, Function.update_self], runnable⟩
  · intro j h there
    rw [fibs] at there
    rcases update_fiber there with ⟨rfl, rfl⟩ | ⟨_, old⟩
    · exact fits
    · exact formed.fits j h old

section Calls

variable {c : Config σ γ} {s t : RwRuntime σ γ} {i : Nat} {f : Fiber σ}

theorem inCode_eq_some (at_ : s.inCode = some (i, f)) :
    s.runtime.pc = .slice i ∧ s.runtime.fibs i = some f ∧ s.asking i = none ∧ f.place = .app := by
  unfold RwRuntime.inCode at at_
  split at at_
  · rename_i j pc
    split at at_
    · rename_i g live asks
      split at at_
      · rename_i place
        rw [Option.some.injEq, Prod.mk.injEq] at at_
        obtain ⟨rfl, rfl⟩ := at_
        exact ⟨pc, live, asks, place⟩
      · cases at_
    · cases at_
  · cases at_

theorem inLoop_eq_some {rw : RwId} {mode : Mode} (at_ : s.inLoop = some (i, f, rw, mode)) :
    s.runtime.pc = .slice i ∧ s.runtime.fibs i = some f ∧ s.asking i = some (rw, mode) := by
  unfold RwRuntime.inLoop at at_
  split at at_
  · rename_i j pc
    split at at_
    · rename_i g rw' mode' live asks
      simp only [Option.some.injEq, Prod.mk.injEq] at at_
      obtain ⟨rfl, rfl, rfl, rfl⟩ := at_
      exact ⟨pc, live, asks⟩
    · cases at_
  · cases at_

/-- A successful attempt lets the caller in next to those it may be with. -/
theorem trylock_agrees {rw : RwId} {p : Party} {mode : Mode} {admits : Bool}
    (agree : LocksAgree s)
    (taken : ((s.rwlocks rw).trylock p.osThread admits mode).2 = true) :
    SharedLock.Agrees Party.osThread ((s.rwlocks rw).trylock p.osThread admits mode).1.readers
      ((s.rwlocks rw).trylock p.osThread admits mode).1.curWriter ((p, mode) :: s.holds rw) := by
  have before := agree rw
  cases mode with
  | read =>
    unfold RwLock.trylock RwLock.tryrdlock at taken ⊢
    dsimp only at taken ⊢
    split at taken
    · rename_i free
      rw [free.1] at before
      rw [if_pos free]
      dsimp only
      rw [free.1]
      exact before.share p
    · cases taken
  | write =>
    unfold RwLock.trylock RwLock.trywrlock at taken ⊢
    dsimp only at taken ⊢
    split at taken
    · rename_i free
      rw [free.1, free.2] at before
      rw [if_pos free]
      dsimp only
      rw [free.2]
      exact before.take p
    · cases taken

/-- Writing one lock and its holds together. -/
theorem LocksAgree.update {l : RwId} {x : RwLock} {holds : List (Party × Mode)}
    (agree : LocksAgree s) (here : SharedLock.Agrees Party.osThread x.readers x.curWriter holds)
    (locks : t.rwlocks = Function.update s.rwlocks l x)
    (held : t.holds = Function.update s.holds l holds) : LocksAgree t := by
  intro rw'
  rw [locks, held]
  by_cases same : rw' = l
  · subst same
    rw [Function.update_self, Function.update_self]
    exact here
  · rw [Function.update_of_ne same, Function.update_of_ne same]
    exact agree rw'

theorem enter_agree {rw : RwId} {p : Party} {mode : Mode} {admits : Bool} (agree : LocksAgree s)
    (taken : ((s.rwlocks rw).trylock p.osThread admits mode).2 = true) :
    LocksAgree (s.enter rw ((s.rwlocks rw).trylock p.osThread admits mode).1 p mode) :=
  agree.update (trylock_agrees agree taken) rfl rfl

theorem tryEnter_rwInv (inv : RwInv c s) (p : Party) (rw : RwId) (mode : Mode) (admits : Bool) :
    RwInv c (s.tryEnter p rw mode admits).1 := by
  unfold RwRuntime.tryEnter
  dsimp only
  split
  · rename_i taken
    exact ⟨inv.formed, enter_agree inv.agree taken, inv.asks⟩
  · exact inv

/-- An unlock by a holder takes away the caller's own hold and nothing else, although
the library goes by the OS thread. -/
theorem unlock_agree {p : Party} {rw : RwId} (agree : LocksAgree s) (own : Holding s p rw) :
    LocksAgree (s.pthreadRwlockUnlock p rw) := by
  have before := agree rw
  refine agree.update (l := rw) (x := (s.rwlocks rw).unlock p.osThread) ?_ rfl rfl
  unfold RwLock.unlock RwRuntime.ownHold
  by_cases writes : (p, Mode.write) ∈ s.holds rw
  · rw [if_pos writes, if_pos ((before.writer_iff writes).mpr rfl)]
    exact before.leave_write writes
  · have reads : (p, Mode.read) ∈ s.holds rw := own.resolve_right writes
    have other : ¬ (s.rwlocks rw).curWriter = some p.osThread := by
      intro same
      cases (before.writer_iff reads).mp same
    rw [if_neg writes, if_neg other]
    exact before.leave_read reads

/-- The fibers that ask, after fiber `i` has written its own entry. -/
theorem AsksRunnable.rewrite {f' : Fiber σ} {ask : Option (RwId × Mode)} (asks : AsksRunnable s)
    (fibs : t.runtime.fibs = Function.update s.runtime.fibs i (some f'))
    (asking : t.asking = Function.update s.asking i ask)
    (own : ask ≠ none → f'.Runnable ∧ f'.place = .lock) : AsksRunnable t := by
  intro j rw mode asked
  rw [fibs]
  rw [asking] at asked
  by_cases same : j = i
  · subst same
    rw [Function.update_self] at asked ⊢
    exact ⟨f', rfl, own (by rw [asked]; exact Option.some_ne_none _)⟩
  · rw [Function.update_of_ne same] at asked ⊢
    exact asks j rw mode asked

theorem lockLoop_rwInv (inv : RwInv c s) (pc : s.runtime.pc = .slice i)
    (live : s.runtime.fibs i = some f) (rw : RwId) (mode : Mode) (admits : Bool) :
    RwInv c (s.lockLoop c.ssl i f rw mode admits) := by
  have runnable : f.Runnable := inv.formed.runnable live pc
  unfold RwRuntime.lockLoop
  dsimp only
  split
  · rename_i taken
    refine ⟨?_, ?_, ?_⟩
    · refine inv.formed.rewrite (g := { f with place := .app }) live rfl rfl rfl ?_ rfl runnable ?_
      · intro j inside
        have same : Pc.slice i = .slice j := pc.symm.trans inside
        exact (Pc.slice.inj same).symm
      · unfold Fiber.Fits
        rcases runnable with new | run
        · simp [new]
        · simp [run]
    · exact enter_agree (p := .fiber i) inv.agree taken
    · exact inv.asks.rewrite rfl rfl (fun asks => absurd rfl asks)
  · refine ⟨?_, inv.agree, ?_⟩
    · exact inv.formed.rewrite live rfl rfl rfl nofun rfl (Or.inr rfl) trivial
    · exact inv.asks.rewrite rfl rfl (fun _ => ⟨Or.inr rfl, rfl⟩)

/-- A step of the runtime leaves a fiber that asks in its loop. -/
theorem runtime_rwInv {u : Runtime σ γ} {a : Act} (inv : RwInv c s)
    (aside : ∀ out, a = .carrier out → s.inLoop = none) (taken : step c s.runtime a = some u) :
    RwInv c { s with runtime := u } := by
  refine ⟨step_formed inv.formed taken, inv.agree, ?_⟩
  intro i rw mode asked
  obtain ⟨f, live, runnable, place⟩ := inv.asks i rw mode asked
  rcases step_keeps inv.formed taken live with ⟨f', live'⟩ | ⟨_, done⟩
  · refine ⟨f', live', ?_⟩
    cases step_moved inv.formed taken live live' with
    | keep => exact ⟨runnable, place⟩
    | event _ waiting => exact absurd waiting (runnable.ne nofun nofun)
    | offloaded _ waiting => exact absurd waiting (runnable.ne nofun nofun)
    | woken waiting => exact absurd waiting (runnable.ne nofun nofun)
    | expired _ waiting =>
      rcases waiting with waiting | waiting
      · exact absurd waiting (runnable.ne nofun nofun)
      · exact absurd waiting (runnable.ne nofun nofun)
    | switchIn => exact ⟨runnable.switchedIn, by rw [Fiber.switchedIn_place, place]; rfl⟩
    | @slice out _ pc =>
      have none := aside out rfl
      unfold RwRuntime.inLoop at none
      rw [pc] at none
      dsimp only at none
      rw [live, asked] at none
      cases none
  · exact absurd done (runnable.ne nofun nofun)

theorem step_rwInv {a : RwAct} (inv : RwInv c s) (own : OwnUnlock s a)
    (taken : rwStep c s a = some t) : RwInv c t := by
  cases a with
  | rdlock rw admits =>
    obtain ⟨⟨i, f⟩, at_, rfl⟩ := Option.map_eq_some_iff.mp taken
    obtain ⟨pc, live, _⟩ := inCode_eq_some at_
    exact lockLoop_rwInv inv pc live rw .read admits
  | wrlock rw =>
    obtain ⟨⟨i, f⟩, at_, rfl⟩ := Option.map_eq_some_iff.mp taken
    obtain ⟨pc, live, _⟩ := inCode_eq_some at_
    exact lockLoop_rwInv inv pc live rw .write true
  | tryrdlock rw admits =>
    obtain ⟨⟨i, f⟩, _, rfl⟩ := Option.map_eq_some_iff.mp taken
    exact tryEnter_rwInv inv (.fiber i) rw .read admits
  | trywrlock rw =>
    obtain ⟨⟨i, f⟩, _, rfl⟩ := Option.map_eq_some_iff.mp taken
    exact tryEnter_rwInv inv (.fiber i) rw .write true
  | unlock rw =>
    obtain ⟨⟨i, f⟩, at_, rfl⟩ := Option.map_eq_some_iff.mp taken
    have held : Holding s (.fiber i) rw := by simpa only [OwnUnlock, at_] using own
    exact ⟨inv.formed, unlock_agree inv.agree held, inv.asks⟩
  | again admits =>
    obtain ⟨⟨i, f, rw, mode⟩, at_, rfl⟩ := Option.map_eq_some_iff.mp taken
    obtain ⟨pc, live, _⟩ := inLoop_eq_some at_
    exact lockLoop_rwInv inv pc live rw mode admits
  | threadLock thread rw mode admits =>
    rw [rwStep] at taken
    split at taken
    · rw [Option.some.injEq] at taken
      exact taken ▸ tryEnter_rwInv inv (.thread thread) rw mode admits
    · cases taken
  | threadUnlock thread rw =>
    rw [rwStep, Option.some.injEq] at taken
    subst taken
    exact ⟨inv.formed, unlock_agree inv.agree own, inv.asks⟩
  | act a =>
    change s.runtimeStep c a = some t at taken
    unfold RwRuntime.runtimeStep at taken
    split at taken
    · cases taken
    · rename_i notBoth
      obtain ⟨u, moved, rfl⟩ := Option.map_eq_some_iff.mp taken
      apply runtime_rwInv inv _ moved
      intro out carrier
      cases inside : s.inLoop with
      | none => rfl
      | some found => exact absurd inside (notBoth out found carrier)

end Calls

/-- Among fibers, which are all one OS thread to the library, and real threads, in every
run in which only holders unlock: a writer is alone, an unlock gives up the caller's own
hold, and a fiber that waits for a lock is runnable and holds up no other. -/
theorem writers_exclude_across_fibers (c : Config σ γ) (mem : γ) (detOn : Bool)
    (kinds : MutexId → MutexKind) (acts : List RwAct)
    (own : Machine.Guarded (rwStep c) OwnUnlock (.init mem detOn kinds) acts) :
    Machine.Always (rwStep c)
      (fun s => (∀ rw, SharedLock.Exclusive (s.holds rw)) ∧ LocksAgree s ∧ AsksRunnable s)
      (.init mem detOn kinds) acts := by
  have all := Machine.always_of_invariant
    (fun _ _ _ inv own taken => step_rwInv inv own taken) (init_rwInv c mem detOn kinds) own
  exact all.mono fun s inv => ⟨fun rw => (inv.agree rw).exclusive, inv.agree, inv.asks⟩

/-- A thread function that offloads one request and returns. -/
def oneOffload : Config Nat Unit :=
  { app :=
      { entry := id
        code := fun at_ => match at_ with
          | 0 => .accelEncrypt [] fun _ => 1
          | _ => .ret }
    gEnforce := false, gRealmutex := false, ssl := .absent, transform := id }

def quietSteps (n : Nat) : List RwAct := List.replicate n (.act (.carrier .quiet))

/-- Fiber 0 writes across an offload; fiber 1 asks to read meanwhile and waits in the
loop until the writer is back and unlocks. -/
def writeAcrossOffload : List RwAct :=
  [.act (.create 0), .act (.create 0)] ++ quietSteps 10 ++
    [.wrlock 0] ++ quietSteps 3 ++ [.rdlock 0 true] ++ quietSteps 4 ++
    [.act (.carrier { Out.quiet with done := true })] ++ quietSteps 8 ++
    [.unlock 0] ++ quietSteps 3 ++ [.again true]

theorem writeAcrossOffload_excludes : ∃ s,
    Machine.run (rwStep oneOffload) (.init () false fun _ => .normal) writeAcrossOffload = some s ∧
    s.holds 0 = [(.fiber 1, .read)] ∧
    Machine.Always (rwStep oneOffload)
      (fun s => (∀ rw, SharedLock.Exclusive (s.holds rw)) ∧ LocksAgree s ∧ AsksRunnable s)
      (.init () false fun _ => .normal) writeAcrossOffload :=
  ⟨_, rfl, rfl, writers_exclude_across_fibers oneOffload () false (fun _ => .normal)
    writeAcrossOffload (by decide +kernel)⟩

end TransparentOffload
