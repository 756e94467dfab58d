import TransparentOffload.Moves

set_option autoImplicit false

/- What holds of the table in every reachable state, whatever the program does:
slots are the fibers' own, only a runnable fiber is switched in, and the place a
fiber waits in fits the state its wait set. -/
namespace TransparentOffload

variable {σ γ : Type}

/-- `f->state==F_NEW||f->state==F_RUN`. -/
def Fiber.Runnable (f : Fiber σ) : Prop := f.state = .new ∨ f.state = .run

/-- A runnable fiber is in none of the other states. -/
theorem Fiber.Runnable.ne {f : Fiber σ} {state : FState} (runnable : f.Runnable)
    (new : state ≠ .new) (run : state ≠ .run) : f.state ≠ state := by
  rcases runnable with same | same
  · rw [same]
    exact new.symm
  · rw [same]
    exact run.symm

/-- The place a fiber is in agrees with its state. -/
def Fiber.Fits (f : Fiber σ) : Prop :=
  match f.state with
  | .new => f.place = .app
  | .run => True
  | .waitIo => f.place = .io ∨ f.place = .poll
  | .waitOff => f.place = .offload f.offId
  | .waitCond => f.place = .cond ∧ f.waitcond ≠ none
  | .done => True

namespace Fiber

@[simp] theorem switchedIn_state (f : Fiber σ) : f.switchedIn.state = f.state := by
  unfold switchedIn; dsimp only; split <;> rfl

@[simp] theorem switchedIn_slot (f : Fiber σ) : f.switchedIn.slot = f.slot := by
  unfold switchedIn; dsimp only; split <;> rfl

@[simp] theorem switchedIn_got (f : Fiber σ) : f.switchedIn.got = f.got := by
  unfold switchedIn; dsimp only; split <;> rfl

@[simp] theorem switchedIn_ctx (f : Fiber σ) : f.switchedIn.ctx = f.ctx := by
  unfold switchedIn; dsimp only; split <;> rfl

@[simp] theorem switchedIn_offId (f : Fiber σ) : f.switchedIn.offId = f.offId := by
  unfold switchedIn; dsimp only; split <;> rfl

@[simp] theorem switchedIn_saved (f : Fiber σ) : f.switchedIn.saved = f.saved := by
  unfold switchedIn; dsimp only; split <;> rfl

@[simp] theorem switchedIn_waits (f : Fiber σ) : f.switchedIn.waits = f.waits := by
  unfold switchedIn; dsimp only; split <;> rfl

/-- Only a condition wait goes on in another place than the one it was left in. -/
theorem switchedIn_place (f : Fiber σ) :
    f.switchedIn.place = if f.place = .cond then .relock f.timedOut else f.place := by
  unfold switchedIn
  dsimp only
  cases place : f.place <;> simp

theorem Runnable.switchedIn {f : Fiber σ} (runnable : f.Runnable) : f.switchedIn.Runnable := by
  unfold Runnable at runnable ⊢
  rwa [switchedIn_state]

end Fiber

/-- A slice keeps the slot of the fiber it runs. -/
theorem SliceMove.slot {c : Config σ γ} {f f' : Fiber σ} {out : Out}
    (moved : SliceMove c f out f') : f'.slot = f.slot := by
  cases moved <;> rfl

/-- What a fiber keeps through the steps it is not switched in for. -/
structure Fiber.Aside (f f' : Fiber σ) : Prop where
  ctx : f'.ctx = f.ctx
  got : f'.got = f.got
  offId : f'.offId = f.offId
  saved : f'.saved = f.saved
  waits : f'.waits = f.waits
  place : f'.place = f.place ∨ (f.place = .cond ∧ f'.place = .relock f.timedOut)
  ended : f'.state = .done → f.state = .done

theorem FiberMove.aside {c : Config σ γ} {s : Runtime σ γ} {a : Act} {i : Nat}
    {f f' : Fiber σ} (moved : FiberMove c s i f a f')
    (still : ∀ out, a = .carrier out → s.pc ≠ .slice i) : f.Aside f' := by
  cases moved with
  | keep => exact ⟨rfl, rfl, rfl, rfl, rfl, Or.inl rfl, id⟩
  | event | offloaded | woken | expired => exact ⟨rfl, rfl, rfl, rfl, rfl, Or.inl rfl, nofun⟩
  | switchIn =>
    refine ⟨f.switchedIn_ctx, f.switchedIn_got, f.switchedIn_offId, f.switchedIn_saved,
      f.switchedIn_waits, ?_, fun ended => by rwa [Fiber.switchedIn_state] at ended⟩
    rw [Fiber.switchedIn_place]
    by_cases waited : f.place = .cond
    · simp [waited]
    · simp [waited]
  | slice pc => exact absurd pc (still _ rfl)

/-- What holds of every fiber and of the carrier's place in the table. -/
structure Formed (c : Config σ γ) (s : Runtime σ γ) : Prop where
  slots : ∀ i f, s.fibs i = some f → f.slot = i ∧ i < s.nfib
  queue : ∀ g ∈ s.newq, ∃ arg number, g = Fiber.make (c.app.entry arg) number
  running : ∀ i, s.pc = .slice i → ∃ f, s.fibs i = some f ∧ f.Runnable
  fits : ∀ i f, s.fibs i = some f → f.Fits

/-- The fiber that is switched in is runnable. -/
theorem Formed.runnable {c : Config σ γ} {s : Runtime σ γ} {i : Nat} {f : Fiber σ}
    (formed : Formed c s) (live : s.fibs i = some f) (pc : s.pc = .slice i) : f.Runnable := by
  obtain ⟨g, there, runnable⟩ := formed.running i pc
  rw [live, Option.some.injEq] at there
  exact there ▸ runnable

theorem Formed.untaken {c : Config σ γ} {s : Runtime σ γ} {i : Nat} (formed : Formed c s)
    (above : s.nfib ≤ i) : s.fibs i = none := by
  by_contra some
  obtain ⟨f, live⟩ := Option.ne_none_iff_exists'.mp some
  have high := (formed.slots i f live).2
  omega

theorem init_formed (c : Config σ γ) (mem : γ) (detOn : Bool) (kinds : MutexId → MutexKind) :
    Formed c (Runtime.init mem detOn kinds) := by
  refine ⟨?_, ?_, ?_, ?_⟩
  all_goals simp [Runtime.init]

/-- A move keeps a fiber's place and state in agreement. -/
theorem FiberMove.fits {c : Config σ γ} {s : Runtime σ γ} {i : Nat} {f f' : Fiber σ} {a : Act}
    (moved : FiberMove c s i f a f') (fits : f.Fits)
    (running : s.pc = .slice i → f.Runnable) : f'.Fits := by
  cases moved with
  | keep => exact fits
  | event | offloaded | woken | expired => trivial
  | switchIn pc runnable =>
    unfold Fiber.Fits at fits ⊢
    rw [Fiber.switchedIn_state, Fiber.switchedIn_place]
    rcases runnable with new | run
    · rw [new] at fits ⊢
      simp [show f.place = .app from fits]
    · rw [run]
      trivial
  | slice pc moved =>
    cases moved with
    | back ctx got =>
      unfold Fiber.Fits
      rcases running pc with new | run
      · simp [new]
      · simp [run]
    | io => exact Or.inl rfl
    | poll | pollTimed => exact Or.inr rfl
    | offload => rfl
    | run | done => trivial
    | cond => exact ⟨rfl, by simp⟩

theorem FiberMove.slot {c : Config σ γ} {s : Runtime σ γ} {i : Nat} {f f' : Fiber σ} {a : Act}
    (moved : FiberMove c s i f a f') : f'.slot = f.slot := by
  cases moved with
  | switchIn => exact f.switchedIn_slot
  | slice pc moved => exact moved.slot
  | _ => rfl

theorem pthreadCreate_newq {s : Runtime σ γ} {start : σ} {g : Fiber σ}
    (member : g ∈ (s.pthreadCreate start).newq) :
    g ∈ s.newq ∨ g = Fiber.make start s.gConnFibers := by
  unfold Runtime.pthreadCreate at member
  dsimp only at member
  split at member
  · simpa using member
  · exact Or.inl member

/-- Tables only grow, and what is queued is a fiber that has not started. -/
theorem step_growing {c : Config σ γ} {s s' : Runtime σ γ} {a : Act}
    (taken : step c s a = some s') : s.nfib ≤ s'.nfib ∧ ∀ g ∈ s'.newq,
      g ∈ s.newq ∨ ∃ arg number, g = Fiber.make (c.app.entry arg) number := by
  cases step_table taken with
  | @create arg start =>
    have same : s.pthreadCreate (c.app.entry arg) = s.pthreadCreate start :=
      Option.some.inj taken
    rw [← same]
    refine ⟨Nat.le_of_eq (s.pthreadCreate_nfib _).symm, ?_⟩
    intro g member
    rcases pthreadCreate_newq member with old | new
    · exact Or.inl old
    · exact Or.inr ⟨arg, _, new⟩
  | intake pc =>
    rw [Runtime.intake_eq]
    exact ⟨Nat.le_add_right _ _, fun g member => absurd member List.not_mem_nil⟩
  | free pc live done fibs freed stores rest =>
    exact ⟨Nat.le_of_eq rest.2.1.symm, fun g member => Or.inl (rest.1 ▸ member)⟩
  | steady creates intakes same =>
    exact ⟨Nat.le_of_eq same.nfib.symm, fun g member => Or.inl (same.newq ▸ member)⟩

/-- A fiber stays in the table until it is done and the carrier frees it. -/
theorem step_keeps {c : Config σ γ} {s s' : Runtime σ γ} {a : Act} {i : Nat} {f : Fiber σ}
    (inv : Formed c s) (taken : step c s a = some s') (live : s.fibs i = some f) :
    (∃ f', s'.fibs i = some f') ∨ (s.pc = .back i ∧ f.state = .done) := by
  cases step_table taken with
  | create start => exact Or.inl ⟨f, by rw [Runtime.pthreadCreate_fibs, live]⟩
  | intake pc =>
    refine Or.inl ⟨f, ?_⟩
    rw [Runtime.intake_eq]
    exact (Runtime.takenIn_outside (Or.inl (inv.slots i f live).2)).trans live
  | @free out s' j g pc there done fibs =>
    by_cases here : i = j
    · subst here
      rw [there, Option.some.injEq] at live
      exact Or.inr ⟨pc, live ▸ done⟩
    · exact Or.inl ⟨f, by rw [fibs, Function.update_of_ne here, live]⟩
  | steady creates intakes same =>
    have tagged : tags s'.fibs i = some f.tag := by
      rw [same.tags]
      simp [tags, live]
    obtain ⟨f', live', _⟩ := Option.map_eq_some_iff.mp tagged
    exact Or.inl ⟨f', live'⟩

theorem step_formed {c : Config σ γ} {s s' : Runtime σ γ} {a : Act} (inv : Formed c s)
    (taken : step c s a = some s') : Formed c s' := by
  have growing := step_growing taken
  refine ⟨?_, ?_, ?_, ?_⟩
  · intro i f' live
    rcases step_fiber taken live with ⟨f, was, moved⟩ | ⟨g, _, rfl, _, high, _⟩
    · have slot := inv.slots i f was
      exact ⟨moved.slot.trans slot.1, Nat.lt_of_lt_of_le slot.2 growing.1⟩
    · exact ⟨rfl, high⟩
  · intro g member
    rcases growing.2 g member with old | new
    · exact inv.queue g old
    · exact new
  · intro i pc
    rcases step_switched taken pc with ⟨pc', same⟩ | ⟨pc', f, ctx, got, was, now⟩ |
      ⟨_, f, was, runnable, now⟩
    · rw [same]
      exact inv.running i pc'
    · have runnable : f.Runnable := inv.runnable was pc'
      exact ⟨_, now, runnable⟩
    · exact ⟨_, now, Fiber.Runnable.switchedIn runnable⟩
  · intro i f' live
    rcases step_fiber taken live with ⟨f, was, moved⟩ | ⟨g, waiting, rfl, _⟩
    · exact moved.fits (inv.fits i f was) (inv.runnable was)
    · obtain ⟨arg, number, rfl⟩ := inv.queue g waiting
      rfl

/-- The fiber of a slot before and after a step is one fiber that moved. -/
theorem step_moved {c : Config σ γ} {s s' : Runtime σ γ} {a : Act} {i : Nat} {f f' : Fiber σ}
    (inv : Formed c s) (taken : step c s a = some s') (live : s.fibs i = some f)
    (live' : s'.fibs i = some f') : FiberMove c s i f a f' := by
  rcases step_fiber taken live' with ⟨f₀, was, moved⟩ | ⟨_, _, _, low, _⟩
  · rw [live, Option.some.injEq] at was
    exact was ▸ moved
  · have high := (inv.slots i f live).2
    omega

/-- `wake_fibers(c)` makes a fiber of the table that waits on `c` runnable. -/
theorem Runtime.wakeFibers_wakes {s : Runtime σ γ} {i : Nat} {f : Fiber σ} {c : Option CondId}
    (taken : i < s.nfib) (live : s.fibs i = some f) (waiting : f.state = .waitCond)
    (on : f.waitcond = c) : (s.wakeFibers c).fibs i =
      some { f with state := .run, waitcond := none, wake := .cond } := by
  change (if i < s.nfib then (s.fibs i).map (wakeOne c) else s.fibs i) = _
  rw [if_pos taken, live, Option.map_some, wakeOne, if_pos ⟨waiting, on⟩]

/-- The run loop at a runnable fiber switches it in. -/
theorem step_run {c : Config σ γ} {s : Runtime σ γ} {i : Nat} {f : Fiber σ} {out : Out}
    (inv : Formed c s) (pc : s.pc = .run i) (live : s.fibs i = some f) (runnable : f.Runnable) :
    step c s (.carrier out) = some (s.switchIn c i f) := by
  have taken : i < s.nfib := (inv.slots i f live).2
  change s.carrier c out = _
  rw [Runtime.carrier, pc]
  dsimp only
  rw [Runtime.runStep, if_pos taken, live]
  dsimp only
  rw [if_pos (show f.state = .new ∨ f.state = .run from runnable)]

/-- A fiber's place changes only in its own slices and when it is switched in. -/
theorem step_place {c : Config σ γ} {s s' : Runtime σ γ} {a : Act} {i : Nat} {f f' : Fiber σ}
    (inv : Formed c s) (taken : step c s a = some s') (live : s.fibs i = some f)
    (live' : s'.fibs i = some f') (still : ∀ out, a = .carrier out → s.pc ≠ .slice i) :
    f'.place = f.place ∨ s'.pc = .slice i := by
  cases step_moved inv taken live live' with
  | keep | event | offloaded | woken | expired => exact Or.inl rfl
  | switchIn pc runnable =>
    right
    rw [step_run inv pc live runnable, Option.some.injEq] at taken
    rw [← taken, Runtime.switchIn_pc]
  | slice pc => exact absurd pc (still _ rfl)

theorem reached_formed {c : Config σ γ} {acts : List Act} {s t : Runtime σ γ}
    (start : Formed c s) (ran : runActs c s acts = some t) : Formed c t :=
  Machine.invariant_reached (fun _ _ _ inv taken => step_formed inv taken) start ran

end TransparentOffload
