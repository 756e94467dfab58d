import Mathlib.Algebra.BigOperators.Group.Finset.Piecewise
import Mathlib.Algebra.Order.BigOperators.Group.Finset

set_option autoImplicit false

/- Families of counters, of which one at a time is raised. -/
namespace Counters

/-- Setting one counter changes the total by what that counter changes. -/
theorem sum_update {n k : Nat} (inside : k < n) (f : Nat → Nat) (v : Nat) :
    ∑ i ∈ Finset.range n, Function.update f k v i + f k = ∑ i ∈ Finset.range n, f i + v := by
  have member : k ∈ Finset.range n := Finset.mem_range.mpr inside
  rw [Finset.sum_update_of_mem member, Finset.sum_eq_add_sum_sdiff_singleton_of_mem member f]
  omega

/-- Raising one counter raises the total by as much. -/
theorem sum_raise {n k : Nat} (inside : k < n) (f : Nat → Nat) (more : Nat) :
    ∑ i ∈ Finset.range n, Function.update f k (f k + more) i =
      ∑ i ∈ Finset.range n, f i + more := by
  have changed := sum_update inside f (f k + more)
  omega

/-- Totals of counters that never exceed others agree only if each pair does. -/
theorem sum_eq_iff {n : Nat} {f g : Nat → Nat} (le : ∀ k < n, f k ≤ g k) :
    ∑ i ∈ Finset.range n, f i = ∑ i ∈ Finset.range n, g i ↔ ∀ k < n, f k = g k := by
  rw [Finset.sum_eq_sum_iff_of_le fun k member => le k (Finset.mem_range.mp member)]
  simp

end Counters
