import TransparentOffload.Lib.Run
import Mathlib.Algebra.Order.BigOperators.Group.Finset
import Mathlib.Data.Set.Defs

set_option autoImplicit false

/- Threads over a shared memory, each with cells of its own that no other thread touches.
Whatever the order in which they take their steps, each finds its cells as if it ran
alone. -/
namespace Threads

variable {τ α ν l : Type*}

/-- All threads with their local states: one of them takes a step. -/
def step [DecidableEq τ] (body : τ → (α → ν) × l → Option ((α → ν) × l))
    (s : (α → ν) × (τ → l)) (t : τ) : Option ((α → ν) × (τ → l)) :=
  (body t (s.1, s.2 t)).map fun u => (u.1, Function.update s.2 t u.2)

/-- No thread has a step left. -/
def Finished (body : τ → (α → ν) × l → Option ((α → ν) × l)) (s : (α → ν) × (τ → l)) : Prop :=
  ∀ t, body t (s.1, s.2 t) = none

/-- Each thread reads and writes its own cells only. -/
structure Separate (own : τ → Set α) (body : τ → (α → ν) × l → Option ((α → ν) × l)) : Prop where
  apart : ∀ t u a, t ≠ u → a ∈ own t → a ∉ own u
  writes : ∀ t m l n l', body t (m, l) = some (n, l') → ∀ a, a ∉ own t → n a = m a
  reads : ∀ t m l n l' other, body t (m, l) = some (n, l') → (∀ a ∈ own t, other a = m a) →
    ∃ after, body t (other, l) = some (after, l') ∧ ∀ a ∈ own t, after a = n a

section

variable [DecidableEq τ] {own : τ → Set α} {body : τ → (α → ν) × l → Option ((α → ν) × l)}

theorem step_eq_some {s s' : (α → ν) × (τ → l)} {t : τ} (taken : step body s t = some s') :
    ∃ n l', body t (s.1, s.2 t) = some (n, l') ∧ s' = (n, Function.update s.2 t l') := by
  obtain ⟨u, stepped, rfl⟩ := Option.map_eq_some_iff.mp taken
  exact ⟨u.1, u.2, stepped, rfl⟩

/-- A run of all the threads contains a run of each of them alone, from any memory that
agrees on its cells. -/
theorem run_alone (separate : Separate own body) (t : τ) {acts : List τ}
    {s s' : (α → ν) × (τ → l)} {alone : α → ν} (reached : Machine.run (step body) s acts = some s')
    (agree : ∀ a ∈ own t, alone a = s.1 a) :
    ∃ after, Machine.run (fun u (_ : τ) => body t u) (alone, s.2 t) (acts.filter (· = t)) =
        some (after, s'.2 t) ∧ ∀ a ∈ own t, after a = s'.1 a := by
  induction acts generalizing s alone with
  | nil =>
    rw [Machine.run_nil, Option.some.injEq] at reached
    rw [← reached]
    exact ⟨alone, rfl, agree⟩
  | cons u acts ih =>
    obtain ⟨mid, taken, rest⟩ := Machine.run_cons_eq_some.mp reached
    obtain ⟨n, l', stepped, rfl⟩ := step_eq_some taken
    by_cases same : u = t
    · rw [same] at stepped rest
      obtain ⟨after, first, agreed⟩ := separate.reads t _ _ n l' alone stepped agree
      obtain ⟨final, later, settled⟩ := ih rest agreed
      refine ⟨final, ?_, settled⟩
      rw [List.filter_cons_of_pos (by simpa using same), Machine.run_cons_of_step first]
      simpa using later
    · have untouched : ∀ a ∈ own t, alone a = n a := by
        intro a mine
        rw [agree a mine]
        exact (separate.writes u _ _ n l' stepped a
          (separate.apart t u a (Ne.symm same) mine)).symm
      obtain ⟨final, later, settled⟩ := ih rest untouched
      refine ⟨final, ?_, settled⟩
      rw [List.filter_cons_of_neg (by simpa using same)]
      simpa [Function.update_of_ne (Ne.symm same)] using later

/-- A cell of no thread keeps its value. -/
theorem run_outside (separate : Separate own body) {acts : List τ} {s s' : (α → ν) × (τ → l)}
    (reached : Machine.run (step body) s acts = some s') {a : α} (outside : ∀ t, a ∉ own t) :
    s'.1 a = s.1 a := by
  apply Machine.invariant_reached (I := fun u => u.1 a = s.1 a) _ rfl reached
  intro u t v kept taken
  obtain ⟨n, l', stepped, rfl⟩ := step_eq_some taken
  show n a = s.1 a
  rw [separate.writes t _ _ n l' stepped a (outside t), kept]

/-- Where every step brings its thread nearer to its end, any run can be completed. -/
theorem exists_finished [Fintype τ] (size : τ → l → Nat)
    (shrinks : ∀ t m l n l', body t (m, l) = some (n, l') → size t l' < size t l)
    (s : (α → ν) × (τ → l)) :
    ∃ acts s', Machine.run (step body) s acts = some s' ∧ Finished body s' := by
  induction total : ∑ t, size t (s.2 t) using Nat.strongRecOn generalizing s with
  | ind n ih =>
    by_cases finished : Finished body s
    · exact ⟨[], s, rfl, finished⟩
    · obtain ⟨t, pending⟩ := not_forall.mp finished
      obtain ⟨u, stepped⟩ := Option.ne_none_iff_exists'.mp pending
      have taken : step body s t = some (u.1, Function.update s.2 t u.2) := by
        rw [step, stepped]
        rfl
      have here := shrinks t _ _ u.1 u.2 stepped
      have nearer : ∑ v, size v (Function.update s.2 t u.2 v) < n := by
        rw [← total]
        apply Finset.sum_lt_sum
        · intro v _
          by_cases same : v = t
          · rw [same, Function.update_self]
            exact Nat.le_of_lt here
          · rw [Function.update_of_ne same]
        · exact ⟨t, Finset.mem_univ t, by rwa [Function.update_self]⟩
      obtain ⟨acts, s', reached, done⟩ := ih _ nearer (u.1, Function.update s.2 t u.2) rfl
      exact ⟨t :: acts, s', by rw [Machine.run_cons_of_step taken, reached], done⟩

end

end Threads
