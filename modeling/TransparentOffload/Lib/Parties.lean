import TransparentOffload.Lib.Dialogue
import Mathlib.Logic.Function.Basic

set_option autoImplicit false

/- A table of parties, each at its own stream: the first so many numbers have been given
out, and a number without a party has been left by it or was never taken. -/
namespace Dialogue

variable {α η : Type*} {r : Rule α} {Stands : η → Wire α → Prop} {count i : Nat}
  {parties parties' : Nat → Option η} {wires wires' : Nat → Wire α} {h : η}

/-- One number of the table. -/
def At (r : Rule α) (Stands : η → Wire α → Prop) (count i : Nat) : Option η → Wire α → Prop
  | some h, w => i < count ∧ Stands h w
  | none, w => if i < count then ∃ n, Serves r w n .gone else Serves r w 0 (.reading [])

/-- Every stream is served by its party, if it has one. -/
def Upholds (r : Rule α) (Stands : η → Wire α → Prop) (count : Nat) (parties : Nat → Option η)
    (wires : Nat → Wire α) : Prop :=
  ∀ i, At r Stands count i (parties i) (wires i)

theorem Upholds.start : Upholds r Stands 0 (fun _ => none) fun _ => ⟨[], [], []⟩ := by
  intro i
  unfold At
  dsimp only
  rw [if_neg (Nat.not_lt_zero i)]
  exact .start r

theorem Upholds.stands (upholds : Upholds r Stands count parties wires)
    (live : parties i = some h) : Stands h (wires i) := by
  have here := upholds i
  rw [live] at here
  exact here.2

theorem Upholds.tx_isPrefix (upholds : Upholds r Stands count parties wires)
    (part : ∀ h w, Stands h w → w.tx <+: r.owed w.arrived) (i : Nat) :
    (wires i).tx <+: r.owed (wires i).arrived := by
  have here := upholds i
  cases party : parties i with
  | some h =>
    rw [party] at here
    exact part h _ here.2
  | none =>
    rw [party] at here
    unfold At at here
    dsimp only at here
    split at here
    · obtain ⟨n, serves⟩ := here
      exact serves.tx_isPrefix
    · exact here.tx_isPrefix

/-- A party has moved, and nothing has changed for the others. -/
theorem Upholds.moved (upholds : Upholds r Stands count parties wires) (was : parties i ≠ none)
    (others : ∀ j, j ≠ i → parties' j = parties j ∧ wires' j = wires j)
    (now : parties' i = some h) (stands : Stands h (wires' i)) :
    Upholds r Stands count parties' wires' := by
  intro j
  by_cases mine : j = i
  · have here := upholds i
    rw [mine, now]
    cases party : parties i with
    | none => exact absurd party was
    | some old =>
      rw [party] at here
      exact ⟨here.1, stands⟩
  · rw [(others j mine).1, (others j mine).2]
    exact upholds j

/-- A party leaves. -/
theorem Upholds.left (upholds : Upholds r Stands count parties wires)
    (gone : ∀ h, parties i = some h → ∃ n, Serves r (wires i) n .gone) :
    Upholds r Stands count (Function.update parties i none) wires := by
  intro j
  by_cases mine : j = i
  · subst mine
    rw [Function.update_self]
    have here := upholds j
    cases party : parties j with
    | none =>
      rw [party] at here
      exact here
    | some h =>
      rw [party] at here
      unfold At
      dsimp only
      rw [if_pos here.1]
      exact gone h party
  · rw [Function.update_of_ne mine]
    exact upholds j

/-- The next number is given to a party. -/
theorem Upholds.accepted (upholds : Upholds r Stands count parties wires)
    (fresh : ∀ w, Serves r w 0 (.reading []) → Stands h w) :
    Upholds r Stands (count + 1) (Function.update parties count (some h)) wires := by
  intro j
  have here := upholds j
  by_cases mine : j = count
  · subst mine
    rw [Function.update_self]
    refine ⟨Nat.lt_succ_self j, fresh _ ?_⟩
    cases party : parties j with
    | none =>
      rw [party] at here
      unfold At at here
      dsimp only at here
      rwa [if_neg (Nat.lt_irrefl j)] at here
    | some old =>
      rw [party] at here
      exact absurd here.1 (Nat.lt_irrefl j)
  · rw [Function.update_of_ne mine]
    have below : j < count + 1 ↔ j < count := by omega
    cases party : parties j with
    | none =>
      rw [party] at here
      unfold At at here ⊢
      dsimp only at here ⊢
      rw [if_congr below rfl rfl]
      exact here
    | some old =>
      rw [party] at here
      exact ⟨below.mpr here.1, here.2⟩

/-- Something arrives on a stream. -/
theorem Upholds.arrive (upholds : Upholds r Stands count parties wires) (more : List α)
    (others : ∀ j, j ≠ i → wires' j = wires j)
    (now : wires' i = ⟨(wires i).arrived ++ more, (wires i).rx ++ more, (wires i).tx⟩)
    (stands : ∀ h, parties i = some h → Stands h (wires' i)) :
    Upholds r Stands count parties wires' := by
  intro j
  have here := upholds j
  by_cases mine : j = i
  · subst mine
    cases party : parties j with
    | none =>
      rw [party] at here
      unfold At at here ⊢
      dsimp only at here ⊢
      rw [now]
      split at here <;> rename_i side
      · rw [if_pos side]
        obtain ⟨n, serves⟩ := here
        exact ⟨n, serves.arrive more⟩
      · rw [if_neg side]
        exact here.arrive more
    | some h =>
      rw [party] at here
      exact ⟨here.1, stands h party⟩
  · rw [others j mine]
    exact here

end Dialogue
