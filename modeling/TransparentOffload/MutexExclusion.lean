import TransparentOffload.Formed

set_option autoImplicit false

/- Mutual exclusion between fibers through the interposed mutex calls. The lock
word decides for normal and errorcheck mutexes; a recursive mutex knows only the
OS thread, and all fibers are one. -/
namespace TransparentOffload

variable {σ γ : Type}

/-- A mutex and the locks the fibers hold of it: the carrier owns it for one fiber,
as often as the count says, or no fiber holds it. -/
def Mutex.Shared (x : Mutex) (held : Nat → Nat) : Prop :=
  ((∀ i, held i = 0) ∧ x.owner ≠ some .carrier) ∨
    ∃ i, 0 < held i ∧ (∀ j, j ≠ i → held j = 0) ∧ x.owner = some .carrier ∧
      (x.kind = .recursive → x.count = held i) ∧ (x.kind ≠ .recursive → held i = 1)

namespace Mutex.Shared

variable {x x' : Mutex} {held : Nat → Nat} {i : Nat}

theorem exclusive (shared : x.Shared held) {i j : Nat} (first : 0 < held i)
    (second : 0 < held j) : i = j := by
  rcases shared with ⟨none, _⟩ | ⟨k, _, others, _⟩
  · have := none i
    omega
  · by_contra apart
    by_cases holder : i = k
    · have := others j fun same => apart (holder.trans same.symm)
      omega
    · have := others i holder
      omega

theorem owner_of_held (shared : x.Shared held) (holds : 0 < held i) :
    x.owner = some .carrier := by
  rcases shared with ⟨none, _⟩ | ⟨_, _, _, owner, _⟩
  · have := none i
    omega
  · exact owner

/-- A lock taken by a fiber, when nobody else holds a recursive mutex. -/
theorem take (shared : x.Shared held) (taken : (x.trylock .carrier).2 = true)
    (alone : x.kind = .recursive → ∀ j, j ≠ i → held j = 0) :
    (x.trylock .carrier).1.Shared (Function.update held i (held i + 1)) := by
  have others : (∀ j, j ≠ i → held j = 0) →
      ∀ j, j ≠ i → Function.update held i (held i + 1) j = 0 := by
    intro free j other
    rw [Function.update_of_ne other]
    exact free j other
  rcases (Mutex.trylock_taken taken).2 with free | ⟨kind, own⟩
  · rcases shared with ⟨none, _⟩ | ⟨_, _, _, owner, _⟩
    · have fresh : (x.trylock .carrier).1 = { x with owner := some .carrier, count := 1 } := by
        simp [Mutex.trylock, free]
      right
      refine ⟨i, ?_, others fun j _ => none j, ?_, ?_, ?_⟩
      · simp
      · rw [fresh]
      · rw [fresh, Function.update_self, none i]
        exact fun _ => rfl
      · rw [Function.update_self, none i]
        exact fun _ => rfl
    · rw [free] at owner
      cases owner
  · have again : (x.trylock .carrier).1 = { x with count := x.count + 1 } := by
      simp [Mutex.trylock, kind, own]
    rcases shared with ⟨_, other⟩ | ⟨k, holds, _, _, counted, _⟩
    · exact absurd own other
    · have here : k = i := by
        by_contra apart
        have := alone kind k apart
        omega
      subst here
      right
      refine ⟨k, ?_, others (alone kind), ?_, ?_, ?_⟩
      · simp
      · rw [again]
        exact own
      · rw [again, Function.update_self]
        intro _
        change x.count + 1 = held k + 1
        rw [counted kind]
      · rw [again]
        exact fun notRecursive => absurd kind notRecursive

/-- The unlock of a fiber that holds the mutex. -/
theorem release (shared : x.Shared held) (holds : 0 < held i) :
    (x.unlock .carrier).2 = true ∧
      (x.unlock .carrier).1.Shared (Function.update held i (held i - 1)) := by
  rcases shared with ⟨none, _⟩ | ⟨k, some, others, owner, counted, single⟩
  · have := none i
    omega
  have here : k = i := by
    by_contra apart
    have := others i (Ne.symm apart)
    omega
  subst here
  have free : held k = 1 → ∀ j, Function.update held k (held k - 1) j = 0 := by
    intro one j
    by_cases same : j = k
    · subst same
      rw [Function.update_self, one]
    · rw [Function.update_of_ne same]
      exact others j same
  unfold Mutex.unlock
  cases kind : x.kind with
  | normal =>
    have one := single (by simp [kind])
    exact ⟨rfl, Or.inl ⟨free one, nofun⟩⟩
  | errorcheck =>
    have one := single (by simp [kind])
    simp only [owner, ↓reduceIte]
    exact ⟨trivial, Or.inl ⟨free one, nofun⟩⟩
  | recursive =>
    have count := counted kind
    simp only [owner, ↓reduceIte]
    by_cases last : x.count ≤ 1
    · rw [if_pos last]
      exact ⟨rfl, Or.inl ⟨free (by omega), nofun⟩⟩
    · rw [if_neg last]
      refine ⟨rfl, Or.inr ⟨k, ?_, ?_, rfl, ?_, ?_⟩⟩
      · rw [Function.update_self]
        omega
      · intro j other
        rw [Function.update_of_ne other]
        exact others j other
      · intro _
        rw [Function.update_self]
        change x.count - 1 = held k - 1
        rw [count]
      · exact fun notRecursive => absurd rfl notRecursive

/-- A real thread takes the mutex only from nobody or from itself. -/
theorem realLock {t : Nat} {ok : Bool} (shared : x.Shared held)
    (locked : x.lock (.real t) = some (x', ok)) : x'.Shared held := by
  cases ok with
  | false =>
    unfold Mutex.lock at locked
    split at locked
    · rename_i taken
      rw [Option.some.injEq] at locked
      rw [locked] at taken
      cases taken
    · split at locked
      · cases locked
        exact shared
      · cases locked
  | true =>
    obtain ⟨taken, rfl⟩ := Mutex.lock_taken locked
    obtain ⟨now, was⟩ := Mutex.trylock_taken taken
    rcases shared with ⟨none, _⟩ | ⟨_, _, _, owner, _⟩
    · exact Or.inl ⟨none, by rw [now]; nofun⟩
    · rcases was with free | ⟨_, own⟩
      · rw [owner] at free
        cases free
      · rw [owner] at own
        cases own

/-- A real thread unlocks what it owns. -/
theorem realUnlock {t : Nat} (shared : x.Shared held) (owns : x.owner = some (.real t)) :
    (x.unlock (.real t)).1.Shared held := by
  rcases shared with ⟨none, _⟩ | ⟨_, _, _, owner, _⟩
  · refine Or.inl ⟨none, ?_⟩
    unfold Mutex.unlock
    split
    · exact nofun
    · rw [if_pos owns]
      exact nofun
    · rw [if_pos owns]
      split
      · exact nofun
      · change x.owner ≠ _
        rw [owns]
        exact nofun
  · rw [owner] at owns
    cases owns

end Mutex.Shared

namespace Runtime

/-- At most one fiber is between its lock of a mutex and the matching last unlock. -/
def Exclusive (s : Runtime σ γ) : Prop :=
  ∀ m i j, 0 < s.held m i → 0 < s.held m j → i = j

/-- The next step of `f` unlocks `m`. -/
def Unlocks (c : Config σ γ) (f : Fiber σ) (m : MutexId) : Prop :=
  f.place = .app ∧ ((∃ k, c.app.code f.ctx = .mutexUnlock m k) ∨
    ∃ cv call k, c.app.code f.ctx = .condWait cv m call k)

/-- Fibers and real threads unlock only what they have locked. -/
def UnlocksOwn (c : Config σ γ) (s : Runtime σ γ) : Act → Prop
  | .carrier _ => ∀ i f m, s.pc = .slice i → s.fibs i = some f → Unlocks c f m → 0 < s.held m i
  | .threadUnlock t m => (s.mutexes m).owner = some (.real t)
  | _ => True

/-- No fiber tries to lock a recursive mutex that another fiber holds. -/
def RecursiveAlone (c : Config σ γ) (s : Runtime σ γ) : Act → Prop
  | .carrier _ => ∀ i f m, s.pc = .slice i → s.fibs i = some f → Attempts c f m →
      (s.mutexes m).kind = .recursive → ∀ j, j ≠ i → s.held m j = 0
  | _ => True

structure ShareInv (c : Config σ γ) (s : Runtime σ γ) : Prop where
  formed : Formed c s
  shared : ∀ m, (s.mutexes m).Shared (s.held m)

theorem ShareInv.exclusive {c : Config σ γ} {s : Runtime σ γ} (inv : ShareInv c s) :
    s.Exclusive := by
  intro m i j first second
  exact (inv.shared m).exclusive first second

theorem init_shareInv (c : Config σ γ) (mem : γ) (detOn : Bool) (kinds : MutexId → MutexKind) :
    ShareInv c (init mem detOn kinds) := by
  refine ⟨init_formed c mem detOn kinds, ?_⟩
  intro m
  exact Or.inl ⟨fun _ => rfl, nofun⟩

/-- What a slice does to the mutexes: a lock taken, an unlock, or nothing. -/
inductive MutexEffect (c : Config σ γ) (s : Runtime σ γ) (i : Nat) (f : Fiber σ) :
    (MutexId → Mutex) → (MutexId → Nat → Nat) → Prop
  | take {m : MutexId} (attempts : Attempts c f m)
      (taken : ((s.mutexes m).trylock .carrier).2 = true) :
      MutexEffect c s i f (Function.update s.mutexes m ((s.mutexes m).trylock .carrier).1)
        (Function.update s.held m (Function.update (s.held m) i (s.held m i + 1)))
  | release {m : MutexId} (unlocks : Unlocks c f m)
      (done : ((s.mutexes m).unlock .carrier).2 = true) :
      MutexEffect c s i f (Function.update s.mutexes m ((s.mutexes m).unlock .carrier).1)
        (Function.update s.held m (Function.update (s.held m) i (s.held m i - 1)))
  | keep (idle : ∀ m, Attempts c f m → ((s.mutexes m).trylock .carrier).2 = false) :
      MutexEffect c s i f s.mutexes s.held

/-- A step that tries to lock no mutex leaves them alone. -/
theorem MutexEffect.other {c : Config σ γ} {s : Runtime σ γ} {i : Nat} {f : Fiber σ}
    (other : ∀ m, ¬ Attempts c f m) : MutexEffect c s i f s.mutexes s.held :=
  .keep fun m attempts => absurd attempts (other m)

theorem MutexEffect.failed {c : Config σ γ} {s : Runtime σ γ} {i : Nat} {f : Fiber σ} {m : MutexId}
    (attempts : Attempts c f m) (failed : ((s.mutexes m).trylock .carrier).2 = false) :
    MutexEffect c s i f s.mutexes s.held := by
  refine .keep ?_
  intro m' attempts'
  have same := attempts'.locks
  rw [attempts.locks, Option.some.injEq] at same
  exact same ▸ failed

theorem not_attempts_of_locks {c : Config σ γ} {f : Fiber σ}
    (none : (c.app.code f.ctx).locks = none) (m : MutexId) : ¬ Attempts c f m := by
  intro attempts
  rw [attempts.locks] at none
  cases none

theorem not_attempts_of_unlocks {c : Config σ γ} {f : Fiber σ} {m : MutexId}
    (unlocks : Unlocks c f m) (m' : MutexId) : ¬ Attempts c f m' := by
  obtain ⟨place, ⟨k, code⟩ | ⟨cv, call, k, code⟩⟩ := unlocks
  · apply not_attempts_of_locks
    rw [code]
    rfl
  · rintro (⟨_, ⟨_, locks⟩ | ⟨_, locks⟩⟩ | ⟨lock, _⟩ | ⟨_, relock, _⟩)
    · rw [code] at locks
      cases locks
    · rw [code] at locks
      cases locks
    · rw [place] at lock
      cases lock
    · rw [place] at relock
      cases relock

theorem releaseMutex_effect {c : Config σ γ} {s : Runtime σ γ} {i : Nat} {f : Fiber σ}
    {m : MutexId} (unlocks : Unlocks c f m) :
    MutexEffect c s i f (s.releaseMutex i m).mutexes (s.releaseMutex i m).held := by
  unfold releaseMutex
  dsimp only
  split
  · rename_i done
    exact .release unlocks done
  · exact .other (not_attempts_of_unlocks unlocks)

theorem slice_mutex {c : Config σ γ} {s s' : Runtime σ γ} {i : Nat} {f : Fiber σ} {out : Out}
    (taken : Slice c s i f out s') : MutexEffect c s i f s'.mutexes s'.held := by
  have calm : ∀ {call}, c.app.code f.ctx = call → call.locks = none →
      MutexEffect c s i f s.mutexes s.held :=
    fun code none => .other (not_attempts_of_locks (code ▸ none))
  cases taken with
  | plain place code | lockBusy place code | ioReturn place code | ioPark place code
  | pollPass place code | pollRet place code | offload place code | offloadRet place code
  | close place code | exit place code => exact calm code rfl
  | pollPark place code =>
    unfold yieldIoTo
    split <;> exact calm code rfl
  | condWake place code =>
    rcases code with code | code
    · exact calm code rfl
    · exact calm code rfl
  | errQueue place kept =>
    rcases kept with ⟨_, _, code, _⟩ | ⟨_, code, _⟩ | ⟨_, code, _⟩
    · exact calm code rfl
    · exact calm code rfl
    · exact calm code rfl
  | lockTaken attempts attempt =>
    obtain ⟨taken, rfl⟩ := Mutex.lock_taken attempt
    exact .take attempts taken
  | lockWait attempts failed => exact .failed attempts failed
  | lockFailed attempts failed => exact .failed attempts failed
  | unlock place code => exact releaseMutex_effect ⟨place, Or.inl ⟨_, code⟩⟩
  | condWait place code => exact releaseMutex_effect ⟨place, Or.inr ⟨_, _, _, code⟩⟩

/-- Outside the slices only real threads touch the mutexes. -/
theorem step_mutex {c : Config σ γ} {s s' : Runtime σ γ} {a : Act}
    (taken : step c s a = some s') (still : ∀ out i, a = .carrier out → s.pc ≠ .slice i) :
    s'.held = s.held ∧ (s'.mutexes = s.mutexes ∨
      (∃ t m x ok, a = .threadLock t m ∧ (s.mutexes m).lock (.real t) = some (x, ok) ∧
        s'.mutexes = Function.update s.mutexes m x) ∨
      ∃ t m, a = .threadUnlock t m ∧
        s'.mutexes = Function.update s.mutexes m ((s.mutexes m).unlock (.real t)).1) := by
  cases stepped taken with
  | create arg =>
    unfold pthreadCreate
    dsimp only
    split <;> exact ⟨rfl, Or.inl rfl⟩
  | reserveNone | reserve | publish | socket | device => exact ⟨rfl, Or.inl rfl⟩
  | threadLock attempt => exact ⟨rfl, Or.inr (Or.inl ⟨_, _, _, _, rfl, attempt, rfl⟩)⟩
  | threadUnlock t m => exact ⟨rfl, Or.inr (Or.inr ⟨t, m, rfl, rfl⟩)⟩
  | @round out _ taken =>
    cases taken with
    | intake =>
      rw [intake_eq]
      exact ⟨rfl, Or.inl rfl⟩
    | epoll =>
      obtain ⟨epoll, fibs, same⟩ := deliverAll_frame s out.events
      rw [epollWait, same]
      exact ⟨rfl, Or.inl rfl⟩
    | goOn | offloadDone | drain | expire | free => exact ⟨rfl, Or.inl rfl⟩
    | @switchIn i f =>
      obtain ⟨errno, errq, same⟩ := switchIn_frame c s i f
      rw [same]
      exact ⟨rfl, Or.inl rfl⟩
    | slice pc => exact absurd pc (still out _ rfl)

/-- A mutex and its locks after one of the mutexes was written. -/
theorem shared_update {s : Runtime σ γ} {m : MutexId} {x : Mutex} {held : Nat → Nat}
    (shared : ∀ m, (s.mutexes m).Shared (s.held m)) (here : x.Shared held) (m' : MutexId) :
    (Function.update s.mutexes m x m').Shared (Function.update s.held m held m') := by
  by_cases same : m' = m
  · subst same
    simpa using here
  · simpa [same] using shared m'

theorem step_shareInv {c : Config σ γ} {s s' : Runtime σ γ} {a : Act} (inv : ShareInv c s)
    (own : UnlocksOwn c s a) (alone : RecursiveAlone c s a) (taken : step c s a = some s') :
    ShareInv c s' := by
  refine ⟨step_formed inv.formed taken, ?_⟩
  rcases sliced_or_still taken with ⟨out, i, f, rfl, pc, live, slice⟩ | still
  · have effect := slice_mutex slice
    generalize s'.mutexes = mutexes, s'.held = held at effect
    cases effect with
    | take attempts took =>
      apply shared_update inv.shared
      exact (inv.shared _).take took (alone i f _ pc live attempts)
    | release unlocks done =>
      apply shared_update inv.shared
      exact ((inv.shared _).release (own i f _ pc live unlocks)).2
    | keep => exact inv.shared
  · obtain ⟨held, same | ⟨t, m, x, ok, rfl, locked, same⟩ | ⟨t, m, rfl, same⟩⟩ :=
      step_mutex taken still
    · rw [same, held]
      exact inv.shared
    · intro m'
      rw [same, held, ← Function.update_eq_self m s.held]
      exact shared_update inv.shared ((inv.shared m).realLock locked) m'
    · intro m'
      rw [same, held, ← Function.update_eq_self m s.held]
      exact shared_update inv.shared ((inv.shared m).realUnlock own) m'

/-- A lock of a recursive mutex that another fiber holds succeeds. -/
theorem step_not_alone {c : Config σ γ} {s s' : Runtime σ γ} {a : Act} (inv : ShareInv c s)
    (missed : ¬ RecursiveAlone c s a) (taken : step c s a = some s') : ¬ s'.Exclusive := by
  intro exclusive
  cases a with
  | carrier out =>
    apply missed
    intro i f m pc live attempts kind j other
    by_contra holds
    have holds : 0 < s.held m j := Nat.pos_of_ne_zero holds
    have owner := (inv.shared m).owner_of_held holds
    have slice := slice_of_live live pc taken
    have succeeds : ((s.mutexes m).trylock .carrier).2 = true := by
      simp [Mutex.trylock, kind, owner]
    have effect := slice_mutex slice
    have both : 0 < s'.held m i ∧ 0 < s'.held m j := by
      generalize s'.mutexes = mutexes, s'.held = held at effect
      cases effect with
      | @take m' attempts' =>
        have same := attempts'.locks
        rw [attempts.locks, Option.some.injEq] at same
        subst same
        rw [Function.update_self, Function.update_self, Function.update_of_ne other]
        exact ⟨Nat.succ_pos _, holds⟩
      | release unlocks => exact absurd attempts (not_attempts_of_unlocks unlocks m)
      | keep idle =>
        rw [idle m attempts] at succeeds
        cases succeeds
    exact other (exclusive m i j both.1 both.2).symm
  | _ => exact missed trivial

end Runtime

open TransparentOffload.Runtime

/-- Among fibers that unlock what they lock, a mutex of any kind excludes exactly
in the runs where no fiber tries a recursive mutex while another one holds it. -/
theorem fibers_exclude_iff_recursive_alone (c : Config σ γ) (mem : γ) (detOn : Bool)
    (kinds : MutexId → MutexKind) (acts : List Act) (s : Runtime σ γ)
    (own : Machine.Guarded (step c) (UnlocksOwn c) (init mem detOn kinds) acts)
    (ran : runActs c (init mem detOn kinds) acts = some s) :
    Machine.Always (step c) Exclusive (init mem detOn kinds) acts ↔
      Machine.Guarded (step c) (RecursiveAlone c) (init mem detOn kinds) acts :=
  Machine.always_iff_guarded (fun _ inv => inv.exclusive)
    (fun _ _ _ inv own alone taken => step_shareInv inv own alone taken)
    (fun _ _ _ inv _ missed taken => step_not_alone inv missed taken)
    (init_shareInv c mem detOn kinds) own ran

/-- A thread function that locks mutex 0, offloads and keeps the lock. -/
def keeper : Config Nat Unit :=
  { app :=
      { entry := fun _ => 0
        code := fun at_ => match at_ with
          | 0 => .mutexLock 0 fun _ => 1
          | 1 => .accelEncrypt [] fun _ => 2
          | _ => .ret }
    gEnforce := false, gRealmutex := false, ssl := .absent, transform := id }

/-- Two such threads, up to the second one's first attempt. -/
def twoKeepers : List Act :=
  .create 0 :: .create 1 :: List.replicate 15 (.carrier .quiet)

theorem keeper_unlocksOwn (kinds : MutexId → MutexKind) :
    Machine.Guarded (step keeper) (UnlocksOwn keeper) (init () false kinds) twoKeepers := by
  apply Machine.guarded_of_mem
  intro a member s
  cases a with
  | carrier out =>
    rintro i f m _ _ ⟨_, ⟨k, code⟩ | ⟨cv, call, k, code⟩⟩
    all_goals
      change keeper.app.code f.ctx = _ at code
      match at_ : f.ctx with
      | 0 | 1 | _ + 2 =>
        rw [at_] at code
        cases code
  | threadUnlock => simp [twoKeepers] at member
  | _ => trivial

theorem twoKeepers_exclude_iff_alone : ∃ s,
    runActs keeper (init () false fun _ => .normal) twoKeepers = some s ∧
    (Machine.Always (step keeper) Exclusive (init () false fun _ => .normal) twoKeepers ↔
      Machine.Guarded (step keeper) (RecursiveAlone keeper) (init () false fun _ => .normal)
        twoKeepers) :=
  ⟨_, rfl, fibers_exclude_iff_recursive_alone keeper () false (fun _ => .normal) twoKeepers _
    (keeper_unlocksOwn _) rfl⟩

/-- With a recursive mutex both threads hold it. -/
theorem recursive_mutex_held_twice : ∃ s,
    runActs keeper (init () false fun _ => .recursive) twoKeepers = some s ∧
    s.held 0 0 = 1 ∧ s.held 0 1 = 1 ∧ ¬ s.Exclusive := by
  refine ⟨_, rfl, rfl, rfl, ?_⟩
  intro exclusive
  have same := exclusive 0 0 1 (by decide) (by decide)
  cases same

end TransparentOffload
