import Mathlib.Data.List.Infix

set_option autoImplicit false

/- Runs of a partial, executable transition function. A step that cannot be
taken answers `none`; everything a run visits is stated over all schedules. -/
namespace Machine

variable {σ α : Type*}

/-- The state after the actions of a schedule, when each of them can be taken. -/
def run (step : σ → α → Option σ) : σ → List α → Option σ
  | s, [] => some s
  | s, a :: rest => (step s a).bind fun t => run step t rest

/-- The property holds in every state the schedule visits, its start included. -/
def Always (step : σ → α → Option σ) (P : σ → Prop) : σ → List α → Prop
  | s, [] => P s
  | s, a :: rest => P s ∧ ∀ t, step s a = some t → Always step P t rest

/-- Every step of the schedule meets the condition, read in the state before it. -/
def Guarded (step : σ → α → Option σ) (C : σ → α → Prop) : σ → List α → Prop
  | _, [] => True
  | s, a :: rest => C s a ∧ ∀ t, step s a = some t → Guarded step C t rest

/-- A schedule can be checked against a condition that can be checked at each step. -/
instance Guarded.decide {step : σ → α → Option σ} {C : σ → α → Prop}
    [check : ∀ s a, Decidable (C s a)] : ∀ s acts, Decidable (Guarded step C s acts)
  | _, [] => isTrue trivial
  | s, a :: rest =>
    match taken : step s a with
    | none => decidable_of_iff (C s a) (by simp [Guarded, taken])
    | some t =>
      have : Decidable (Guarded step C t rest) := Guarded.decide t rest
      decidable_of_iff (C s a ∧ Guarded step C t rest) (by simp [Guarded, taken])

/-- So can a property that can be checked in each state. -/
instance Always.decide {step : σ → α → Option σ} {P : σ → Prop}
    [check : ∀ s, Decidable (P s)] : ∀ s acts, Decidable (Always step P s acts)
  | s, [] => check s
  | s, a :: rest =>
    match taken : step s a with
    | none => decidable_of_iff (P s) (by simp [Always, taken])
    | some t =>
      have : Decidable (Always step P t rest) := Always.decide t rest
      decidable_of_iff (P s ∧ Always step P t rest) (by simp [Always, taken])

section Rules

variable {step : σ → α → Option σ}

@[simp] theorem run_nil (s : σ) : run step s [] = some s := rfl

theorem run_cons (s : σ) (a : α) (rest : List α) :
    run step s (a :: rest) = (step s a).bind fun t => run step t rest := rfl

theorem run_cons_of_step {s t : σ} {a : α} (taken : step s a = some t) (rest : List α) :
    run step s (a :: rest) = run step t rest := by
  rw [run_cons, taken, Option.bind_some]

theorem run_cons_eq_some {s u : σ} {a : α} {rest : List α} :
    run step s (a :: rest) = some u ↔
      ∃ t, step s a = some t ∧ run step t rest = some u := by
  rw [run_cons, Option.bind_eq_some_iff]

theorem run_one (s : σ) (a : α) : run step s [a] = step s a := by
  rw [run_cons]
  cases step s a <;> rfl

theorem run_append (s : σ) (front back : List α) :
    run step s (front ++ back) = (run step s front).bind fun t => run step t back := by
  induction front generalizing s with
  | nil => rfl
  | cons a rest ih =>
    rw [List.cons_append, run_cons, run_cons]
    cases taken : step s a with
    | none => rfl
    | some t => exact ih t

theorem run_append_of_run {s t : σ} {front : List α} (first : run step s front = some t)
    (back : List α) : run step s (front ++ back) = run step t back := by
  rw [run_append, first, Option.bind_some]

theorem run_snoc {s t : σ} {front : List α} (first : run step s front = some t) (a : α) :
    run step s (front ++ [a]) = step t a := by
  rw [run_append_of_run first, run_one]

theorem Always.head {P : σ → Prop} {s : σ} {acts : List α} (all : Always step P s acts) : P s := by
  cases acts with
  | nil => exact all
  | cons a rest => exact all.1

/-- A visited state is one that some prefix of the schedule reaches. -/
theorem always_iff_reached {P : σ → Prop} {s : σ} {acts : List α} :
    Always step P s acts ↔ ∀ front, front <+: acts → ∀ t, run step s front = some t → P t := by
  induction acts generalizing s with
  | nil =>
    constructor
    · intro here front isPrefix t reached
      rw [List.prefix_nil.mp isPrefix, run_nil, Option.some.injEq] at reached
      exact reached ▸ here
    · intro all
      exact all [] List.prefix_rfl s rfl
  | cons a rest ih =>
    constructor
    · rintro ⟨here, after⟩ front isPrefix t reached
      rcases List.prefix_cons_iff.mp isPrefix with rfl | ⟨front', rfl, shorter⟩
      · rw [run_nil, Option.some.injEq] at reached
        exact reached ▸ here
      · obtain ⟨u, taken, reached⟩ := run_cons_eq_some.mp reached
        exact ih.mp (after u taken) front' shorter t reached
    · intro all
      refine ⟨all [] (List.nil_prefix) s rfl, ?_⟩
      intro u taken
      refine ih.mpr ?_
      intro front isPrefix t reached
      exact all (a :: front) (List.cons_prefix_cons.mpr ⟨rfl, isPrefix⟩) t
        (run_cons_eq_some.mpr ⟨u, taken, reached⟩)

/-- Along two schedules, one behind the other. -/
theorem Always.append {P : σ → Prop} {s t : σ} {front back : List α}
    (reached : run step s front = some t) (first : Always step P s front)
    (second : Always step P t back) : Always step P s (front ++ back) := by
  induction front generalizing s with
  | nil =>
    rw [run_nil, Option.some.injEq] at reached
    exact reached ▸ second
  | cons a rest ih =>
    obtain ⟨u, taken, reached⟩ := run_cons_eq_some.mp reached
    refine ⟨first.1, ?_⟩
    intro v taken'
    have same : u = v := Option.some.inj (taken.symm.trans taken')
    rw [← same]
    exact ih reached (first.2 u taken)

theorem always_of_step {P : σ → Prop} {s t : σ} {a : α} {rest : List α} (here : P s)
    (taken : step s a = some t) (later : Always step P t rest) : Always step P s (a :: rest) := by
  refine ⟨here, ?_⟩
  intro v taken'
  have same : t = v := Option.some.inj (taken.symm.trans taken')
  rw [← same]
  exact later

theorem Always.mono {P Q : σ → Prop} (weaker : ∀ s, P s → Q s) {s : σ} {acts : List α}
    (all : Always step P s acts) : Always step Q s acts := by
  rw [always_iff_reached] at all ⊢
  exact fun front isPrefix t reached => weaker t (all front isPrefix t reached)

theorem Guarded.append {C : σ → α → Prop} {s t : σ} {front back : List α}
    (reached : run step s front = some t) :
    Guarded step C s (front ++ back) ↔ Guarded step C s front ∧ Guarded step C t back := by
  induction front generalizing s with
  | nil =>
    rw [run_nil, Option.some.injEq] at reached
    subst reached
    exact ⟨fun guarded => ⟨trivial, guarded⟩, fun both => both.2⟩
  | cons a rest ih =>
    obtain ⟨u, taken, reached⟩ := run_cons_eq_some.mp reached
    constructor
    · rintro ⟨here, after⟩
      have split := (ih reached).mp (after u taken)
      refine ⟨⟨here, ?_⟩, split.2⟩
      intro v taken'
      rw [taken, Option.some.injEq] at taken'
      exact taken' ▸ split.1
    · rintro ⟨⟨here, after⟩, later⟩
      refine ⟨here, ?_⟩
      intro v taken'
      have same : u = v := by rw [taken, Option.some.injEq] at taken'; exact taken'
      exact same ▸ (ih reached).mpr ⟨after u taken, later⟩

theorem Guarded.and {C D : σ → α → Prop} {acts : List α} {s : σ}
    (first : Guarded step C s acts) (second : Guarded step D s acts) :
    Guarded step (fun s a => C s a ∧ D s a) s acts := by
  induction acts generalizing s with
  | nil => trivial
  | cons a rest ih =>
    exact ⟨⟨first.1, second.1⟩, fun t taken => ih (first.2 t taken) (second.2 t taken)⟩

/-- A condition that no action of a schedule can miss guards it. -/
theorem guarded_of_mem {C : σ → α → Prop} {acts : List α} (all : ∀ a ∈ acts, ∀ s, C s a)
    (s : σ) : Guarded step C s acts := by
  induction acts generalizing s with
  | nil => trivial
  | cons a rest ih =>
    have later : ∀ a' ∈ rest, ∀ s, C s a' := fun a' member => all a' (List.mem_cons_of_mem a member)
    exact ⟨all a List.mem_cons_self s, fun t _ => ih later t⟩

/-- A schedule that stays inside a property is guarded by it. -/
theorem Always.guarded {P : σ → Prop} {acts : List α} {s : σ} (all : Always step P s acts) :
    Guarded step (fun s a => ∀ t, step s a = some t → P t) s acts := by
  induction acts generalizing s with
  | nil => trivial
  | cons a rest ih =>
    exact ⟨fun t taken => (all.2 t taken).head, fun t taken => ih (all.2 t taken)⟩

/-- What a property gives of every step is a condition that its schedules meet. -/
theorem Always.guards {P : σ → Prop} {C : σ → α → Prop} (enough : ∀ s a, P s → C s a)
    {acts : List α} {s : σ} (all : Always step P s acts) : Guarded step C s acts := by
  induction acts generalizing s with
  | nil => trivial
  | cons a rest ih => exact ⟨enough s a all.1, fun t taken => ih (all.2 t taken)⟩

/-- A step invariant holds in every state a guarded run visits. -/
theorem always_of_invariant {C : σ → α → Prop} {I : σ → Prop}
    (preserved : ∀ s a t, I s → C s a → step s a = some t → I t)
    {acts : List α} {s : σ} (start : I s) (guarded : Guarded step C s acts) :
    Always step I s acts := by
  induction acts generalizing s with
  | nil => exact start
  | cons a rest ih =>
    exact ⟨start, fun t taken => ih (preserved s a t start guarded.1 taken) (guarded.2 t taken)⟩

/-- A step invariant holds at the end of every guarded run. -/
theorem invariant_run {C : σ → α → Prop} {I : σ → Prop}
    (preserved : ∀ s a t, I s → C s a → step s a = some t → I t)
    {acts : List α} {s t : σ} (start : I s) (guarded : Guarded step C s acts)
    (reached : run step s acts = some t) : I t :=
  always_iff_reached.mp (always_of_invariant preserved start guarded) acts List.prefix_rfl t
    reached

/-- An invariant that every step keeps, whatever it does, holds after every run. -/
theorem invariant_reached {I : σ → Prop} (preserved : ∀ s a t, I s → step s a = some t → I t)
    {acts : List α} {s t : σ} (start : I s) (reached : run step s acts = some t) : I t :=
  invariant_run (C := fun _ _ => True) (fun s a t inv _ taken => preserved s a t inv taken)
    start (guarded_of_mem (fun _ _ _ => trivial) s) reached

/-- An invariant that holds after each step into a state with a property holds at
the end of every run that stays inside the property. -/
theorem invariant_within {P I : σ → Prop}
    (preserved : ∀ s a t, I s → P t → step s a = some t → I t)
    {acts : List α} {s t : σ} (start : I s) (all : Always step P s acts)
    (reached : run step s acts = some t) : I t :=
  invariant_run (fun s a t inv within taken => preserved s a t inv (within t taken) taken)
    start all.guarded reached

/-- Under an invariant a schedule that meets a condition meets a weaker one. -/
theorem Guarded.mono {C D : σ → α → Prop} {I : σ → Prop} {acts : List α} {s : σ}
    (guarded : Guarded step C s acts) (weaker : ∀ s a, I s → C s a → D s a)
    (preserved : ∀ s a t, I s → step s a = some t → I t) (start : I s) :
    Guarded step D s acts := by
  induction acts generalizing s with
  | nil => trivial
  | cons a rest ih =>
    refine ⟨weaker s a start guarded.1, ?_⟩
    exact fun t taken => ih (guarded.2 t taken) (preserved s a t start taken)

/-- Two conditions that agree under an invariant guard the same schedules. -/
theorem guarded_congr {C D : σ → α → Prop} {I : σ → Prop}
    (agree : ∀ s a, I s → (C s a ↔ D s a)) (preserved : ∀ s a t, I s → step s a = some t → I t)
    {acts : List α} {s : σ} (start : I s) : Guarded step C s acts ↔ Guarded step D s acts :=
  ⟨fun guarded => guarded.mono (fun s a inv => (agree s a inv).mp) preserved start,
    fun guarded => guarded.mono (fun s a inv => (agree s a inv).mpr) preserved start⟩

/-- The same for schedules whose steps are all allowed by `H`. -/
theorem guarded_congr_of_allowed {H C D : σ → α → Prop} {I : σ → Prop}
    (agree : ∀ s a, I s → H s a → (C s a ↔ D s a))
    (preserved : ∀ s a t, I s → H s a → step s a = some t → I t) {acts : List α} {s : σ}
    (start : I s) (allowed : Guarded step H s acts) :
    Guarded step C s acts ↔ Guarded step D s acts := by
  induction acts generalizing s with
  | nil => exact Iff.rfl
  | cons a rest ih =>
    apply and_congr (agree s a start allowed.1)
    apply forall_congr'
    intro t
    apply forall_congr'
    intro taken
    exact ih (preserved s a t start allowed.1 taken) (allowed.2 t taken)

/-- Two properties that agree under an invariant hold along the same schedules. -/
theorem always_congr {P Q I : σ → Prop} (agree : ∀ s, I s → (P s ↔ Q s))
    (preserved : ∀ s a t, I s → step s a = some t → I t) {acts : List α} {s : σ}
    (start : I s) : Always step P s acts ↔ Always step Q s acts := by
  induction acts generalizing s with
  | nil => exact agree s start
  | cons a rest ih =>
    apply and_congr (agree s start)
    apply forall_congr'
    intro t
    apply forall_congr'
    intro taken
    exact ih (preserved s a t start taken)

/-- The exact condition of a safety property, for the schedules whose steps are
all allowed by `H`. When the invariant gives the property, a step that meets the
condition keeps the invariant, and a step that misses it lands outside the
property, the schedules that stay inside the property are the guarded ones. -/
theorem always_iff_guarded {H C : σ → α → Prop} {I P : σ → Prop}
    (enough : ∀ s, I s → P s)
    (preserved : ∀ s a t, I s → H s a → C s a → step s a = some t → I t)
    (needed : ∀ s a t, I s → H s a → ¬ C s a → step s a = some t → ¬ P t)
    {acts : List α} {s t : σ} (start : I s) (allowed : Guarded step H s acts)
    (reached : run step s acts = some t) :
    Always step P s acts ↔ Guarded step C s acts := by
  induction acts generalizing s with
  | nil => exact ⟨fun _ => trivial, fun _ => enough s start⟩
  | cons a rest ih =>
    obtain ⟨u, taken, reached⟩ := run_cons_eq_some.mp reached
    have only : ∀ v, step s a = some v → v = u := by
      intro v taken'
      rw [taken, Option.some.injEq] at taken'
      exact taken'.symm
    constructor
    · rintro ⟨_, after⟩
      have here : C s a := by
        by_contra missed
        exact needed s a u start allowed.1 missed taken (after u taken).head
      have next := preserved s a u start allowed.1 here taken
      refine ⟨here, ?_⟩
      intro v taken'
      rw [only v taken']
      exact (ih next (allowed.2 u taken) reached).mp (after u taken)
    · rintro ⟨here, after⟩
      have next := preserved s a u start allowed.1 here taken
      refine ⟨enough s start, ?_⟩
      intro v taken'
      rw [only v taken']
      exact (ih next (allowed.2 u taken) reached).mpr (after u taken)

end Rules

section Pairs

variable {τ ω : Type*} {first : σ → α → Option σ} {second : τ → α → Option τ} {o : σ → ω}
  {o' : τ → ω}

/-- Two machines show the same after every part of a schedule. -/
def Agree (first : σ → α → Option σ) (second : τ → α → Option τ) (o : σ → ω) (o' : τ → ω) (s : σ)
    (t : τ) (acts : List α) : Prop :=
  ∀ front, front <+: acts → (run first s front).map o = (run second t front).map o'

/-- The exact condition for two machines to agree: steps that meet it stay in lockstep,
and a step that misses it shows. -/
theorem agree_iff_guarded {R : σ → τ → Prop} {P : σ → Prop} {C : σ → α → Prop}
    (same : ∀ s t, R s t → o s = o' t)
    (lockstep : ∀ s t a, R s t → P s → C s a → Option.Rel R (first s a) (second t a))
    (shows : ∀ s t a, R s t → P s → ¬ C s a → (first s a).map o ≠ (second t a).map o')
    {acts : List α} {s : σ} {t : τ} (start : R s t) (all : Always first P s acts) :
    Agree first second o o' s t acts ↔ Guarded first C s acts := by
  induction acts generalizing s t with
  | nil =>
    constructor
    · exact fun _ => trivial
    · intro _ front isPrefix
      rw [List.prefix_nil.mp isPrefix]
      exact congrArg some (same s t start)
  | cons a rest ih =>
    constructor
    · intro agree
      have here : C s a := by
        by_contra missed
        have shown := agree [a] (List.cons_prefix_cons.mpr ⟨rfl, List.nil_prefix⟩)
        rw [run_one, run_one] at shown
        exact shows s t a start all.1 missed shown
      refine ⟨here, ?_⟩
      intro u taken
      have related := lockstep s t a start all.1 here
      rw [taken] at related
      cases taken' : second t a with
      | none => rw [taken'] at related; cases related
      | some v =>
        rw [taken'] at related
        cases related with
        | some related =>
          apply (ih related (all.2 u taken)).mp
          intro front isPrefix
          have later := agree (a :: front) (List.cons_prefix_cons.mpr ⟨rfl, isPrefix⟩)
          rwa [run_cons_of_step taken, run_cons_of_step taken'] at later
    · intro guarded front isPrefix
      rcases List.prefix_cons_iff.mp isPrefix with rfl | ⟨front', rfl, shorter⟩
      · exact congrArg some (same s t start)
      · have related := lockstep s t a start all.1 guarded.1
        rw [run_cons, run_cons]
        cases taken : first s a with
        | none =>
          cases taken' : second t a with
          | none => rfl
          | some v => rw [taken, taken'] at related; cases related
        | some u =>
          cases taken' : second t a with
          | none => rw [taken, taken'] at related; cases related
          | some v =>
            rw [taken, taken'] at related
            cases related with
            | some related =>
              exact (ih related (all.2 u taken)).mpr (guarded.2 u taken) front' shorter

end Pairs

end Machine
