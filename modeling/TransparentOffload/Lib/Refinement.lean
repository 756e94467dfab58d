import TransparentOffload.Lib.Run

set_option autoImplicit false

/- Refinement by a function: one machine seen through a function is a run of another,
whose actions are the labelled ones of the first. -/
namespace Machine

variable {σ τ α β : Type*}

/-- Where the invariant holds, a labelled step is the other machine's step and an
unlabelled one shows nothing. -/
structure Refines (first : σ → α → Option σ) (second : τ → β → Option τ) (abs : σ → τ)
    (label : α → Option β) (I : σ → Prop) : Prop where
  kept : ∀ s a t, I s → first s a = some t → I t
  moved : ∀ s a t b, I s → first s a = some t → label a = some b →
    second (abs s) b = some (abs t)
  still : ∀ s a t, I s → first s a = some t → label a = none → abs t = abs s

namespace Refines

variable {first : σ → α → Option σ} {second : τ → β → Option τ} {abs : σ → τ}
  {label : α → Option β} {I : σ → Prop} {acts : List α} {s : σ}

/-- What the second machine keeps of every allowed step holds along the runs of the first
whose labelled steps are allowed, seen through the function. -/
theorem always (refines : Refines first second abs label I) {P : τ → Prop} {C : τ → β → Prop}
    (preserved : ∀ u b v, P u → C u b → second u b = some v → P v) (start : I s)
    (here : P (abs s)) (allowed : Guarded first (fun s a => ∀ b, label a = some b → C (abs s) b)
      s acts) : Always first (fun s => I s ∧ P (abs s)) s acts := by
  apply always_of_invariant _ ⟨start, here⟩ allowed
  rintro s a t ⟨inv, here⟩ allowed taken
  refine ⟨refines.kept s a t inv taken, ?_⟩
  cases labelled : label a with
  | none =>
    rw [refines.still s a t inv taken labelled]
    exact here
  | some b =>
    exact preserved (abs s) b (abs t) here (allowed b labelled)
      (refines.moved s a t b inv taken labelled)

end Refines

end Machine
