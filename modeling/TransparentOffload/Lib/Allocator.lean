import Mathlib.Data.List.Nodup
import Mathlib.Data.List.Perm.Basic
import Mathlib.Logic.Function.Basic

set_option autoImplicit false

/- Items handed out from a stack, with a table that says who owns which. Each item is
free or owned by one, and each owner keeps the items it was given until it gives them
back. -/
namespace Allocator

variable {α ι : Type*}

/-- `free` is the stack, its top first; `doubles` counts the items handed out to a second
owner. -/
structure Pool (α ι : Type*) where
  free : List α
  owner : α → Option ι
  doubles : Nat

namespace Pool

/-- The top of the stack goes to `i`, or nothing when the stack is empty. -/
def take [DecidableEq α] (p : Pool α ι) (i : ι) : Pool α ι × Option α :=
  match p.free with
  | [] => (p, none)
  | a :: rest =>
    ({ free := rest
       owner := Function.update p.owner a (some i)
       doubles := if (p.owner a).isSome then p.doubles + 1 else p.doubles }, some a)

/-- An item comes back. -/
def give [DecidableEq α] (p : Pool α ι) (a : α) : Pool α ι :=
  { p with free := a :: p.free, owner := Function.update p.owner a none }

/-- The stack holds the items without an owner, `held i` those of `i`, none of them
twice, and no item was ever handed out twice. -/
structure Exact (items : List α) (held : ι → List α) (p : Pool α ι) : Prop where
  free_nodup : p.free.Nodup
  mem_free : ∀ a, a ∈ p.free ↔ a ∈ items ∧ p.owner a = none
  held_nodup : ∀ i, (held i).Nodup
  mem_held : ∀ i a, a ∈ held i ↔ a ∈ items ∧ p.owner a = some i
  once : p.doubles = 0

variable {items : List α} {held : ι → List α} {p : Pool α ι}

/-- At first all items are free. -/
theorem Exact.start {free : List α} (distinct : free.Nodup) (all : ∀ a, a ∈ free ↔ a ∈ items) :
    Exact items (fun _ => []) ⟨free, fun _ => (none : Option ι), 0⟩ := by
  refine ⟨distinct, ?_, fun _ => List.nodup_nil, ?_, rfl⟩
  · simp [all]
  · simp

section

variable [DecidableEq α] [DecidableEq ι]

theorem Exact.take (exact_ : Exact items held p) (i : ι) :
    Exact items (Function.update held i (held i ++ (p.take i).2.toList)) (p.take i).1 := by
  cases stack : p.free with
  | nil =>
    have nothing : p.take i = (p, none) := by rw [Pool.take, stack]
    rw [nothing, Option.toList_none, List.append_nil, Function.update_eq_self]
    exact exact_
  | cons a rest =>
    have free : p.owner a = none := ((exact_.mem_free a).mp (by rw [stack]; exact .head _)).2
    have item : a ∈ items := ((exact_.mem_free a).mp (by rw [stack]; exact .head _)).1
    have given : p.take i =
        (⟨rest, Function.update p.owner a (some i), p.doubles⟩, some a) := by
      rw [Pool.take, stack]
      simp [free]
    have distinct := exact_.free_nodup
    rw [stack] at distinct
    obtain ⟨fresh, distinct⟩ := List.nodup_cons.mp distinct
    have unheld : ∀ j, a ∉ held j := by
      intro j member
      have owned := ((exact_.mem_held j a).mp member).2
      rw [free] at owned
      cases owned
    rw [given, Option.toList_some]
    refine ⟨distinct, ?_, ?_, ?_, exact_.once⟩
    · intro b
      show b ∈ rest ↔ b ∈ items ∧ Function.update p.owner a (some i) b = none
      have before := exact_.mem_free b
      rw [stack, List.mem_cons] at before
      by_cases same : b = a
      · rw [same, Function.update_self]
        exact iff_of_false fresh (by simp)
      · rw [Function.update_of_ne same, ← before]
        exact ⟨.inr, fun either => either.resolve_left same⟩
    · intro j
      by_cases mine : j = i
      · rw [mine, Function.update_self]
        apply List.Nodup.append (exact_.held_nodup i) (List.nodup_singleton a)
        intro b old new
        rw [List.mem_singleton.mp new] at old
        exact unheld i old
      · rw [Function.update_of_ne mine]
        exact exact_.held_nodup j
    · intro j b
      show b ∈ Function.update held i (held i ++ [a]) j ↔
        b ∈ items ∧ Function.update p.owner a (some i) b = some j
      have before := exact_.mem_held j b
      by_cases same : b = a
      · rw [same, Function.update_self]
        by_cases mine : j = i
        · rw [mine, Function.update_self]
          simp [item]
        · rw [Function.update_of_ne mine]
          exact iff_of_false (unheld j) (by simp [Ne.symm mine])
      · rw [Function.update_of_ne same, ← before]
        by_cases mine : j = i
        · rw [mine, Function.update_self]
          simp [same]
        · rw [Function.update_of_ne mine]

theorem Exact.give (exact_ : Exact items held p) {i : ι} {a : α} {rest : List α}
    (first : held i = a :: rest) :
    Exact items (Function.update held i rest) (p.give a) := by
  have mine : a ∈ held i := by rw [first]; exact .head _
  obtain ⟨item, owned⟩ := (exact_.mem_held i a).mp mine
  have distinct := exact_.held_nodup i
  rw [first] at distinct
  obtain ⟨gone, distinct⟩ := List.nodup_cons.mp distinct
  refine ⟨?_, ?_, ?_, ?_, exact_.once⟩
  · apply List.nodup_cons.mpr
    refine ⟨?_, exact_.free_nodup⟩
    intro member
    rw [((exact_.mem_free a).mp member).2] at owned
    cases owned
  · intro b
    show b ∈ a :: p.free ↔ b ∈ items ∧ Function.update p.owner a none b = none
    by_cases same : b = a
    · rw [same, Function.update_self]
      simp [item]
    · rw [Function.update_of_ne same, ← exact_.mem_free b, List.mem_cons]
      exact ⟨fun either => either.resolve_left same, .inr⟩
  · intro j
    by_cases same : j = i
    · rw [same, Function.update_self]
      exact distinct
    · rw [Function.update_of_ne same]
      exact exact_.held_nodup j
  · intro j b
    show b ∈ Function.update held i rest j ↔
      b ∈ items ∧ Function.update p.owner a none b = some j
    have before := exact_.mem_held j b
    by_cases same : b = a
    · rw [same, Function.update_self]
      by_cases own : j = i
      · rw [own, Function.update_self]
        exact iff_of_false gone (by simp)
      · rw [Function.update_of_ne own]
        apply iff_of_false
        · intro member
          have other := ((exact_.mem_held j a).mp member).2
          rw [owned, Option.some.injEq] at other
          exact own other.symm
        · simp
    · rw [Function.update_of_ne same, ← before]
      by_cases own : j = i
      · rw [own, Function.update_self, first, List.mem_cons]
        exact ⟨.inr, fun either => either.resolve_left same⟩
      · rw [Function.update_of_ne own]

end

/-- The stack and the holdings of the owners are all the items, without overlap. -/
theorem Exact.perm (exact_ : Exact items held p) (distinct : items.Nodup) {owners : List ι}
    (once : owners.Nodup) (all : ∀ i, i ∉ owners → held i = []) :
    (p.free ++ owners.flatMap held).Perm items := by
  have parts : (p.free ++ owners.flatMap held).Nodup := by
    apply List.Nodup.append exact_.free_nodup
    · apply List.nodup_flatMap.mpr
      refine ⟨fun i _ => exact_.held_nodup i, ?_⟩
      apply once.imp
      intro i j different a first second
      have one := ((exact_.mem_held i a).mp first).2
      have two := ((exact_.mem_held j a).mp second).2
      rw [one, Option.some.injEq] at two
      exact different two
    · intro a free owned
      obtain ⟨i, _, member⟩ := List.mem_flatMap.mp owned
      have none_ := ((exact_.mem_free a).mp free).2
      rw [((exact_.mem_held i a).mp member).2] at none_
      cases none_
  apply (List.perm_ext_iff_of_nodup parts distinct).mpr
  intro a
  rw [List.mem_append, List.mem_flatMap]
  constructor
  · intro either
    rcases either with free | ⟨i, _, member⟩
    · exact ((exact_.mem_free a).mp free).1
    · exact ((exact_.mem_held i a).mp member).1
  · intro item
    cases owner : p.owner a with
    | none => exact .inl ((exact_.mem_free a).mpr ⟨item, owner⟩)
    | some i =>
      have member : a ∈ held i := (exact_.mem_held i a).mpr ⟨item, owner⟩
      refine .inr ⟨i, ?_, member⟩
      by_contra outside
      rw [all i outside] at member
      cases member

end Pool

end Allocator
