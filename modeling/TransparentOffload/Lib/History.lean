import TransparentOffload.Lib.Run

set_option autoImplicit false

/- A machine with a history beside its state, and what a history says of the time
since its latest mark. Histories are lists, the newest event first. -/
namespace Machine

variable {σ α ε : Type*}

/-- The machine that notes the events of each step it takes; no step reads them. -/
def noted (step : σ → α → Option σ) (events : σ → α → List ε) (s : σ × List ε) (a : α) :
    Option (σ × List ε) :=
  (step s.1 a).map fun t => (t, (events s.1 a).reverse ++ s.2)

theorem noted_eq_some {step : σ → α → Option σ} {events : σ → α → List ε} {s t : σ × List ε}
    {a : α} : noted step events s a = some t ↔
      step s.1 a = some t.1 ∧ t.2 = (events s.1 a).reverse ++ s.2 := by
  rw [noted, Option.map_eq_some_iff]
  constructor
  · intro found
    obtain ⟨u, taken, rfl⟩ := found
    exact ⟨taken, rfl⟩
  · intro both
    exact ⟨t.1, both.1, Prod.ext rfl both.2.symm⟩

/-- The events after the latest mark, or all of them. -/
def since (mark : ε → Bool) (h : List ε) : List ε := h.takeWhile fun e => !mark e

section Since

variable {mark : ε → Bool}

theorem since_mark {e : ε} (marks : mark e = true) (h : List ε) : since mark (e :: h) = [] := by
  simp [since, marks]

theorem since_cons {e : ε} (plain : mark e = false) (h : List ε) :
    since mark (e :: h) = e :: since mark h := by
  simp [since, plain]

theorem mem_of_mem_since {e : ε} {h : List ε} (member : e ∈ since mark h) : e ∈ h :=
  (List.takeWhile_prefix _).subset member

/-- Without a mark there is nothing to cut. -/
theorem since_eq_self {h : List ε} (none : ∀ e ∈ h, mark e = false) : since mark h = h := by
  induction h with
  | nil => rfl
  | cons first rest ih =>
    rw [since_cons (none first List.mem_cons_self),
      ih fun e later => none e (List.mem_cons_of_mem first later)]

/-- If one mark has not been made since the latest mark of another kind, then that
one lies further back. -/
theorem mem_since_of_none {other : ε → Bool} {e : ε} {h : List ε}
    (none : ∀ e' ∈ since mark h, other e' = false) (member : e ∈ since mark h) :
    e ∈ since other h := by
  induction h with
  | nil => exact member
  | cons first rest ih =>
    by_cases marks : mark first = true
    · rw [since_mark marks] at member
      cases member
    · rw [Bool.not_eq_true] at marks
      rw [since_cons marks] at none member
      rw [since_cons (none first List.mem_cons_self)]
      rcases List.mem_cons.mp member with here | later
      · exact here ▸ List.mem_cons_self
      · exact List.mem_cons_of_mem first
          (ih (fun e' inside => none e' (List.mem_cons_of_mem first inside)) later)

end Since

end Machine
