import TransparentOffload.ErrorQueues

set_option autoImplicit false

/- `errno` across a park. The carrier's OS thread has one `errno`; the `yield_*`
functions save and restore it around their switch, `fiber_cond_wait` does not. -/
namespace TransparentOffload

variable {σ γ : Type}

/-- The runtime and the value `errno` had when each fiber was last switched out. -/
structure Errnos (σ γ : Type) where
  runtime : Runtime σ γ
  left : Nat → Errno

/-- Any code on the carrier may store to `errno` at any time. -/
inductive ErrnoAct
  | store (e : Errno)
  | act (a : Act)

def Errnos.init (mem : γ) (detOn : Bool) (kinds : MutexId → MutexKind) : Errnos σ γ :=
  ⟨Runtime.init mem detOn kinds, fun _ => 0⟩

namespace Runtime

def storeErrno (s : Runtime σ γ) (e : Errno) : Runtime σ γ := { s with errno := e }

end Runtime

/-- `errno` is noted when the running fiber switches to the scheduler. -/
def leftAfter (s : Errnos σ γ) (t : Runtime σ γ) : Nat → Errno :=
  match s.runtime.pc, t.pc with
  | .slice i, .back _ => Function.update s.left i t.errno
  | _, _ => s.left

def errnoStep (c : Config σ γ) (s : Errnos σ γ) : ErrnoAct → Option (Errnos σ γ)
  | .store e => some { s with runtime := s.runtime.storeErrno e }
  | .act a => (step c s.runtime a).map fun t => ⟨t, leftAfter s t⟩

open TransparentOffload.Runtime

/-- A fiber that is switched in again finds `errno` as it was when it was switched out,
whatever value `e` has been stored there meanwhile. -/
def KeepsErrno (c : Config σ γ) (s : Errnos σ γ) : ErrnoAct → Prop
  | .act (.carrier out) => ∀ i f e t, s.runtime.pc = .run i → s.runtime.fibs i = some f →
      f.Runnable → f.place ≠ .app →
      step c (s.runtime.storeErrno e) (.carrier out) = some t → t.errno = s.left i
  | _ => True

/-- No fiber comes back from the switch inside `fiber_cond_wait`. -/
def OutsideCondWait (s : Errnos σ γ) : ErrnoAct → Prop
  | .act (.carrier _) => ∀ i f, s.runtime.pc = .run i → s.runtime.fibs i = some f →
      f.Runnable → f.place ≠ .cond
  | _ => True

/-- Every fiber left in a `yield_*` function has saved the value it was left with. -/
structure ErrnoInv (c : Config σ γ) (s : Errnos σ γ) : Prop where
  formed : Formed c s.runtime
  saved : ∀ i f, s.runtime.fibs i = some f → f.place.yields = true →
    s.runtime.pc ≠ .slice i → f.serr = s.left i

theorem init_errnoInv (c : Config σ γ) (mem : γ) (detOn : Bool) (kinds : MutexId → MutexKind) :
    ErrnoInv c (.init mem detOn kinds) := by
  refine ⟨init_formed c mem detOn kinds, ?_⟩
  simp [Errnos.init, Runtime.init]

namespace Runtime

theorem storeErrno_formed {c : Config σ γ} {s : Runtime σ γ} (formed : Formed c s) (e : Errno) :
    Formed c (s.storeErrno e) :=
  ⟨formed.slots, formed.queue, formed.running, formed.fits⟩

/-- A slice that leaves its fiber in a `yield_*` function has saved `errno` last. -/
theorem slice_serr {c : Config σ γ} {s s' : Runtime σ γ} {i : Nat} {f f' : Fiber σ} {out : Out}
    (taken : Slice c s i f out s') (live' : s'.fibs i = some f')
    (yields : f'.place.yields = true) : f'.serr = s'.errno := by
  have now : ∀ g, s'.fibs i = some g → f' = g :=
    fun g there => Option.some.inj (live'.symm.trans there)
  cases taken with
  | lockBusy | ioPark | lockWait | offload => rw [now _ (Function.update_self ..)]; rfl
  | pollPark =>
    unfold yieldIoTo at now ⊢
    split at now
    · rename_i forever
      rw [now _ (Function.update_self ..), if_pos forever]
      rfl
    · rename_i timed
      rw [now _ (Function.update_self ..), if_neg timed]
      rfl
  | plain | ioReturn | pollPass | pollRet | offloadRet | lockTaken | lockFailed | errQueue | close
  | condWake =>
    rw [now _ (Function.update_self ..)] at yields
    cases yields
  | unlock =>
    rw [now _ (Function.update_self ..)] at yields
    cases yields
  | condWait =>
    rw [now _ (Function.update_self ..)] at yields
    cases yields
  | exit place =>
    rw [now _ (Function.update_self ..)] at yields
    change f.place.yields = true at yields
    rw [place] at yields
    cases yields

/-- Switching a fiber in restores `errno` for the yields alone. -/
theorem switchIn_errno (c : Config σ γ) (s : Runtime σ γ) (i : Nat) (f : Fiber σ) :
    (s.switchIn c i f).errno = if f.place.yields = true then f.serr else s.errno := by
  unfold switchIn
  dsimp only
  cases f.place <;> rfl

end Runtime

/-- Outside its own slices a fiber keeps what it saved. -/
theorem FiberMove.serr {c : Config σ γ} {s : Runtime σ γ} {a : Act} {i : Nat} {f f' : Fiber σ}
    (moved : FiberMove c s i f a f') (still : ∀ out, a = .carrier out → s.pc ≠ .slice i) :
    f'.serr = f.serr := by
  cases moved with
  | keep | event | offloaded | woken | expired => rfl
  | switchIn =>
    unfold Fiber.switchedIn
    dsimp only
    split <;> rfl
  | slice pc => exact absurd pc (still _ rfl)

theorem step_errnoInv {c : Config σ γ} {s s' : Errnos σ γ} {a : ErrnoAct} (inv : ErrnoInv c s)
    (taken : errnoStep c s a = some s') : ErrnoInv c s' := by
  cases a with
  | store e =>
    rw [errnoStep, Option.some.injEq] at taken
    subst taken
    exact ⟨storeErrno_formed inv.formed e, inv.saved⟩
  | act a =>
    obtain ⟨t, ran, rfl⟩ := Option.map_eq_some_iff.mp taken
    refine ⟨step_formed inv.formed ran, ?_⟩
    intro i f' live' yields away
    by_cases sliced : ∃ out, a = .carrier out ∧ s.runtime.pc = .slice i
    · obtain ⟨out, rfl, pc⟩ := sliced
      obtain ⟨g, live, slice⟩ := step_slice pc ran
      have ended : t.pc = .back i := by
        obtain ⟨_, _, _, _, _, ended | ⟨stays, _⟩⟩ := slice_fibs slice
        · exact ended
        · exact absurd (stays.trans pc) away
      have left : leftAfter s t = Function.update s.left i t.errno := by
        simp only [leftAfter, pc, ended]
      dsimp only
      rw [left, Function.update_self]
      exact slice_serr slice live' yields
    · have still : ∀ out, a = .carrier out → s.runtime.pc ≠ .slice i :=
        fun out carrier pc => sliced ⟨out, carrier, pc⟩
      have before : s.runtime.pc ≠ .slice i := by
        by_cases carrier : ∃ out, a = .carrier out
        · obtain ⟨out, carrier⟩ := carrier
          exact still out carrier
        · have same := (step_other ran fun out here => carrier ⟨out, here⟩).1
          exact fun pc => away (same.trans pc)
      obtain ⟨f, live, yields'⟩ := yields_before inv.formed ran live' yields away still
      have kept := (step_moved inv.formed ran live live').serr still
      have left : leftAfter s t i = s.left i := by
        unfold leftAfter
        cases pc : s.runtime.pc with
        | slice j =>
          have other : i ≠ j := fun same => before (same ▸ pc)
          cases t.pc with
          | back k => exact Function.update_of_ne other _ _
          | _ => rfl
        | _ => rfl
      dsimp only
      rw [kept, left]
      exact inv.saved i f live yields' before

/-- Only the switch of `fiber_cond_wait` leaves `errno` to what others have stored. -/
theorem keepsErrno_iff {c : Config σ γ} {s : Errnos σ γ} (inv : ErrnoInv c s) (a : ErrnoAct) :
    KeepsErrno c s a ↔ OutsideCondWait s a := by
  cases a with
  | store e => exact Iff.rfl
  | act a =>
    cases a with
    | carrier out =>
      have resumed : ∀ i f e, s.runtime.pc = .run i → s.runtime.fibs i = some f → f.Runnable →
          step c (s.runtime.storeErrno e) (.carrier out) =
            some ((s.runtime.storeErrno e).switchIn c i f) :=
        fun i f e pc live runnable => step_run (storeErrno_formed inv.formed e) pc live runnable
      constructor
      · intro keeps i f pc live runnable waits
        have outside : f.place ≠ .app := by simp [waits]
        have kept := keeps i f (s.left i + 1) _ pc live runnable outside
          (resumed i f _ pc live runnable)
        rw [switchIn_errno, if_neg (by simp [waits, Place.yields])] at kept
        exact Nat.succ_ne_self (s.left i) kept
      · intro outside i f e t pc live runnable started ran
        rw [resumed i f e pc live runnable, Option.some.injEq] at ran
        have elsewhere := outside i f pc live runnable
        have yields : f.place.yields = true := by
          cases place : f.place with
          | app => exact absurd place started
          | cond => exact absurd place elsewhere
          | _ => rfl
        rw [← ran, switchIn_errno, if_pos yields]
        exact inv.saved i f live yields (by simp [pc])
    | _ => exact Iff.rfl

/-- In every run, whatever is stored to `errno` and whenever, each fiber that is
switched in again finds the value it was switched out with exactly when no fiber comes
back from the switch inside `fiber_cond_wait`. -/
theorem errno_private_iff_outside_cond_wait (c : Config σ γ) (mem : γ) (detOn : Bool)
    (kinds : MutexId → MutexKind) (acts : List ErrnoAct) :
    Machine.Guarded (errnoStep c) (KeepsErrno c) (.init mem detOn kinds) acts ↔
      Machine.Guarded (errnoStep c) OutsideCondWait (.init mem detOn kinds) acts :=
  Machine.guarded_congr (fun _ a inv => keepsErrno_iff inv a)
    (fun _ _ _ inv taken => step_errnoInv inv taken) (init_errnoInv c mem detOn kinds)

/-- A thread that waits on a condition, and one that signals it. -/
def waiterAndSignaller : Config Nat Unit :=
  { app :=
      { entry := fun arg => arg
        code := fun at_ => match at_ with
          | 0 => .mutexLock 0 fun _ => 1
          | 1 => .condWait 0 0 .wait fun _ => 3
          | 2 => .condSignal 0 3
          | _ => .ret }
    gEnforce := false, gRealmutex := false, ssl := .init, transform := id }

/-- The waiter parks with `errno` 5, and 7 is stored before it is switched in again. -/
def waitWithErrno : List ErrnoAct :=
  [.act (.create 0), .act (.create 2)] ++
    (List.replicate 11 (.act (.carrier .quiet)) ++
    .store 5 :: List.replicate 7 (.act (.carrier .quiet)) ++
    .store 7 :: List.replicate 9 (.act (.carrier .quiet)))

theorem cond_wait_returns_foreign_errno : ∃ s t f,
    Machine.run (errnoStep waiterAndSignaller) (.init () false fun _ => .normal) waitWithErrno =
      some s ∧
    s.runtime.pc = .run 0 ∧ s.runtime.fibs 0 = some f ∧ f.place = .cond ∧ s.left 0 = 5 ∧
    errnoStep waiterAndSignaller s (.act (.carrier .quiet)) = some t ∧
    t.runtime.pc = .slice 0 ∧ t.runtime.errno = 7 ∧
    ¬ KeepsErrno waiterAndSignaller s (.act (.carrier .quiet)) := by
  refine ⟨_, _, _, rfl, rfl, rfl, rfl, rfl, rfl, rfl, rfl, ?_⟩
  intro keeps
  have kept := keeps 0 _ 7 _ rfl rfl (Or.inr rfl) (fun started => (by cases started)) rfl
  cases kept

end TransparentOffload
