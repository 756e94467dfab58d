import Mathlib.Logic.Function.Basic

set_option autoImplicit false

/- Gates that have one holder at most, each with a flag that says whether it has one.
A holder comes to a gate that has none, leaves its gate, or hands it to the next. -/
namespace Holders

variable {γ π : Type*} {on on' : γ → π → Prop} {flag flag' : γ → Nat} {k : γ} {p next : π}

/-- No gate has two holders. -/
def Single (on : γ → π → Prop) : Prop := ∀ g p p', on g p → on g p' → p = p'

/-- The flags say which gates have a holder. -/
def Flagged (flag : γ → Nat) (on : γ → π → Prop) : Prop := ∀ g, flag g = 1 ↔ ∃ p, on g p

theorem Single.mono (single : Single on) (fewer : ∀ g p, on' g p → on g p) : Single on' :=
  fun g p p' first second => single g p p' (fewer g p first) (fewer g p' second)

/-- A holder comes to a gate that has none. -/
theorem Single.enter (single : Single on) (free : ∀ p, ¬ on k p)
    (moves : ∀ g p, on' g p ↔ (p = next ∧ g = k) ∨ on g p) : Single on' := by
  intro g p p' first second
  rcases (moves g p).mp first with ⟨rfl, rfl⟩ | first
  · rcases (moves _ p').mp second with ⟨rfl, _⟩ | second
    · rfl
    · exact absurd second (free p')
  · rcases (moves g p').mp second with ⟨rfl, rfl⟩ | second
    · exact absurd first (free p)
    · exact single g p p' first second

/-- Without its holder a gate has none. -/
theorem Single.left_free (single : Single on) (own : on k p) : ∀ p', ¬ (p' ≠ p ∧ on k p') :=
  fun p' both => both.1 (single k p' p both.2 own)

theorem Single.leave (single : Single on)
    (moves : ∀ g p', on' g p' ↔ p' ≠ p ∧ on g p') : Single on' :=
  single.mono fun g p' there => ((moves g p').mp there).2

/-- A holder hands its gate to the next. -/
theorem Single.pass (single : Single on) (own : on k p)
    (moves : ∀ g p', on' g p' ↔ (p' = next ∧ g = k) ∨ (p' ≠ p ∧ on g p')) : Single on' := by
  have rest : Single fun g p' => p' ≠ p ∧ on g p' := single.leave fun _ _ => Iff.rfl
  exact rest.enter (single.left_free own) moves

/-- A gate with a holder is not free. -/
theorem Flagged.free (flagged : Flagged flag on) (idle : flag k = 0) (p : π) : ¬ on k p := by
  intro there
  have busy := (flagged k).mpr ⟨p, there⟩
  omega

variable [DecidableEq γ]

theorem Flagged.enter (flagged : Flagged flag on) (raised : flag' = Function.update flag k 1)
    (moves : ∀ g p, on' g p ↔ (p = next ∧ g = k) ∨ on g p) : Flagged flag' on' := by
  intro g
  rw [raised]
  by_cases same : g = k
  · subst same
    rw [Function.update_self]
    simp only [true_iff]
    exact ⟨next, (moves _ _).mpr (Or.inl ⟨rfl, rfl⟩)⟩
  · rw [Function.update_of_ne same, flagged g]
    simp only [moves, same, and_false, false_or]

/-- The last holder leaves its gate, which is its only one. -/
theorem Flagged.leave (flagged : Flagged flag on) (lowered : flag' = Function.update flag k 0)
    (last : ∀ p', on k p' → p' = p) (only : ∀ g, on g p → g = k)
    (moves : ∀ g p', on' g p' ↔ p' ≠ p ∧ on g p') : Flagged flag' on' := by
  intro g
  rw [lowered]
  by_cases same : g = k
  · subst same
    rw [Function.update_self]
    simp only [Nat.zero_ne_one, false_iff, not_exists]
    intro p' there
    obtain ⟨apart, before⟩ := (moves _ p').mp there
    exact apart (last p' before)
  · rw [Function.update_of_ne same, flagged g]
    apply exists_congr
    intro p'
    rw [moves g p']
    constructor
    · intro there
      refine ⟨?_, there⟩
      rintro rfl
      exact same (only g there)
    · exact fun both => both.2

theorem Flagged.pass (flagged : Flagged flag on) (busy : flag k = 1)
    (only : ∀ g, on g p → g = k)
    (moves : ∀ g p', on' g p' ↔ (p' = next ∧ g = k) ∨ (p' ≠ p ∧ on g p')) : Flagged flag on' := by
  intro g
  by_cases same : g = k
  · subst same
    rw [busy]
    simp only [true_iff]
    exact ⟨next, (moves _ _).mpr (Or.inl ⟨rfl, rfl⟩)⟩
  · rw [flagged g]
    apply exists_congr
    intro p'
    rw [moves g p', or_iff_right fun both => same both.2]
    constructor
    · intro there
      refine ⟨?_, there⟩
      rintro rfl
      exact same (only g there)
    · exact fun both => both.2

/-- A flag stays a flag when it is stored to. -/
theorem flags_update {bit : Nat} (flags : ∀ g, flag g = 0 ∨ flag g = 1)
    (stored : bit = 0 ∨ bit = 1) (g : γ) :
    Function.update flag k bit g = 0 ∨ Function.update flag k bit g = 1 := by
  by_cases same : g = k
  · rw [same, Function.update_self]
    exact stored
  · rw [Function.update_of_ne same]
    exact flags g

end Holders
