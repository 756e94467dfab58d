import Mathlib.Logic.Function.Basic
import Mathlib.Data.Nat.ModEq

set_option autoImplicit false

/- Unbounded tickets on `width` slots. A producer first reserves the next ticket
and stores into its slot later, or does both at once under a lock; the consumer
takes the slots in ticket order. -/
namespace Tickets

/-- Two tickets of one window of the ring's width never share a slot. -/
theorem same_slot {width low first second : Nat} (firstLow : low ≤ first)
    (firstHigh : first < low + width) (secondLow : low ≤ second)
    (secondHigh : second < low + width) (same : first % width = second % width) :
    first = second := by
  rcases Nat.le_total first second with le | le
  · have gap : (second - first) % width = 0 := Nat.sub_mod_eq_zero_of_mod_eq same.symm
    have zero := Nat.eq_zero_of_dvd_of_lt (Nat.dvd_of_mod_eq_zero gap) (by omega)
    omega
  · have gap : (first - second) % width = 0 := Nat.sub_mod_eq_zero_of_mod_eq same
    have zero := Nat.eq_zero_of_dvd_of_lt (Nat.dvd_of_mod_eq_zero gap) (by omega)
    omega

variable {α : Type*}

/-- The slots with the producers' and the consumer's counters. -/
structure Ring (α : Type*) where
  slots : Nat → α
  head : Nat
  tail : Nat

namespace Ring

/-- A producer's fetch-and-add; the ticket is the old head. -/
def reserve (r : Ring α) : Ring α := { r with head := r.head + 1 }

/-- The store into a reserved ticket's slot. -/
def publish (width : Nat) (r : Ring α) (ticket : Nat) (x : α) : Ring α :=
  { r with slots := Function.update r.slots (ticket % width) x }

/-- What the consumer reads at its position. -/
def front (width : Nat) (r : Ring α) : α := r.slots (r.tail % width)

/-- The consumer's step past one slot. -/
def advance (r : Ring α) : Ring α := { r with tail := r.tail + 1 }

@[simp] theorem advance_head (r : Ring α) : r.advance.head = r.head := rfl
@[simp] theorem advance_tail (r : Ring α) : r.advance.tail = r.tail + 1 := rfl

/-- The window in which a store can neither be late nor overwrite an unread slot. -/
def InWindow (width : Nat) (r : Ring α) (ticket : Nat) : Prop :=
  r.tail ≤ ticket ∧ ticket < r.tail + width

instance (width : Nat) (r : Ring α) (ticket : Nat) : Decidable (r.InWindow width ticket) :=
  inferInstanceAs (Decidable (_ ∧ _))

/-- The ticket is published and unread: the consumer will find `x` at its turn. -/
structure Holds (width : Nat) (r : Ring α) (ticket : Nat) (x : α) : Prop where
  window : r.InWindow width ticket
  below : ticket < r.head
  stored : r.slots (ticket % width) = x

variable {width : Nat} {r : Ring α} {ticket other : Nat} {x y : α}

theorem holds_publish (window : r.InWindow width ticket) (below : ticket < r.head) :
    (r.publish width ticket x).Holds width ticket x :=
  ⟨window, below, Function.update_self ..⟩

theorem Holds.reserve (holds : r.Holds width ticket x) : r.reserve.Holds width ticket x :=
  ⟨holds.window, Nat.lt_succ_of_lt holds.below, holds.stored⟩

/-- A store inside the window leaves every other unread ticket alone. -/
theorem Holds.publish (holds : r.Holds width ticket x) (window : r.InWindow width other)
    (apart : other ≠ ticket) : (r.publish width other y).Holds width ticket x := by
  refine ⟨holds.window, holds.below, ?_⟩
  have slotsApart : ticket % width ≠ other % width := by
    intro same
    exact apart (same_slot window.1 window.2 holds.window.1 holds.window.2 same.symm)
  rw [← holds.stored]
  exact Function.update_of_ne slotsApart ..

/-- The consumer either reads the ticket's own value now or keeps it unread. -/
theorem Holds.advance (holds : r.Holds width ticket x) :
    (ticket = r.tail ∧ r.front width = x) ∨ r.advance.Holds width ticket x := by
  by_cases turn : ticket = r.tail
  · exact Or.inl ⟨turn, by rw [Ring.front, ← turn, holds.stored]⟩
  · have low := holds.window.1
    have high := holds.window.2
    refine Or.inr ⟨⟨?_, ?_⟩, holds.below, holds.stored⟩
    · change r.tail + 1 ≤ ticket
      omega
    · change ticket < r.tail + 1 + width
      omega

/-- A producer that stores into its slot before it advances the head. -/
def push (width : Nat) (r : Ring α) (x : α) : Ring α := (r.publish width r.head x).reserve

@[simp] theorem push_head (width : Nat) (r : Ring α) (x : α) :
    (r.push width x).head = r.head + 1 := rfl
@[simp] theorem push_tail (width : Nat) (r : Ring α) (x : α) :
    (r.push width x).tail = r.tail := rfl

/-- The unread values, in the order in which the consumer takes them. -/
def contents (width : Nat) (r : Ring α) : List α :=
  (List.range' r.tail (r.head - r.tail)).map fun t => r.slots (t % width)

/-- A store behind the unread slots is not seen until the head moves. -/
theorem contents_publish (room : r.head < r.tail + width) (x : α) :
    (r.publish width r.head x).contents width = r.contents width := by
  unfold contents publish
  dsimp only
  apply List.map_congr_left
  intro t member
  obtain ⟨low, high⟩ := List.mem_range'_1.mp member
  have apart : t % width ≠ r.head % width := by
    intro same
    have equal := same_slot low (by omega) (by omega) room same
    omega
  exact Function.update_of_ne apart ..

/-- The head moves over what was stored there. -/
theorem contents_reserve (ordered : r.tail ≤ r.head) :
    r.reserve.contents width = r.contents width ++ [r.slots (r.head % width)] := by
  have count : r.reserve.head - r.reserve.tail = r.head - r.tail + 1 := by
    change r.head + 1 - r.tail = _
    omega
  have last : r.tail + (r.head - r.tail) = r.head := by omega
  unfold contents
  rw [count, List.range'_concat, List.map_append, Nat.one_mul, List.map_singleton]
  change _ ++ [r.slots ((r.tail + (r.head - r.tail)) % width)] = _
  rw [last]
  rfl

@[simp] theorem length_contents (r : Ring α) : (r.contents width).length = r.head - r.tail := by
  unfold contents
  rw [List.length_map, List.length_range']

/-- A producer with room appends its value. -/
theorem contents_push (ordered : r.tail ≤ r.head) (room : r.head < r.tail + width) (x : α) :
    (r.push width x).contents width = r.contents width ++ [x] := by
  have stored : (r.publish width r.head x).slots (r.head % width) = x := Function.update_self ..
  unfold push
  rw [contents_reserve (r := r.publish width r.head x) ordered, contents_publish room]
  exact congrArg (fun y => r.contents width ++ [y]) stored

/-- The consumer takes the first of them. -/
theorem contents_advance (more : r.tail < r.head) :
    r.contents width = r.front width :: r.advance.contents width := by
  have count : r.head - r.tail = r.advance.head - r.advance.tail + 1 := by
    rw [advance_head, advance_tail]
    omega
  unfold contents
  rw [count, List.range'_succ, List.map_cons]
  rfl

/-- A value that can be stored without losing another: its slot is unused, or what
is unread there is the same value. -/
def Fits (width : Nat) (r : Ring α) (x : α) : Prop :=
  r.head < r.tail + width ∨ r.slots (r.head % width) = x

instance [DecidableEq α] (width : Nat) (r : Ring α) (x : α) : Decidable (r.Fits width x) :=
  inferInstanceAs (Decidable (_ ∨ _))

/-- Even a store without room leaves the unread slots it does not hit. -/
theorem contents_push_split (ordered : r.tail ≤ r.head) (x : α) :
    (r.push width x).contents width = ((List.range' r.tail (r.head - r.tail)).map fun t =>
      Function.update r.slots (r.head % width) x (t % width)) ++ [x] := by
  have count : (r.push width x).head - (r.push width x).tail = r.head - r.tail + 1 := by
    rw [push_head, push_tail]
    omega
  have last : r.tail + (r.head - r.tail) = r.head := by omega
  have stored : (r.push width x).slots (r.head % width) = x := Function.update_self ..
  unfold contents
  rw [count, push_tail, List.range'_concat, List.map_append, Nat.one_mul, last,
    List.map_singleton, stored]
  rfl

theorem contents_push_of_fits (ordered : r.tail ≤ r.head) (fits : r.Fits width x) :
    (r.push width x).contents width = r.contents width ++ [x] := by
  rcases fits with room | same
  · exact contents_push ordered room x
  · rw [contents_push_split ordered, ← same, Function.update_eq_self]
    rfl

/-- Whatever a store overwrites, nothing but its own value is new. -/
theorem mem_contents_push (ordered : r.tail ≤ r.head)
    (member : y ∈ (r.push width x).contents width) : y = x ∨ y ∈ r.contents width := by
  rw [contents_push_split ordered, List.mem_append, List.mem_singleton] at member
  rcases member with old | rfl
  · obtain ⟨t, inside, rfl⟩ := List.mem_map.mp old
    by_cases same : t % width = r.head % width
    · rw [same, Function.update_self]
      exact Or.inl rfl
    · rw [Function.update_of_ne same]
      exact Or.inr (List.mem_map_of_mem inside)
  · exact Or.inl rfl

/-- Overwriting values never adds to the others. -/
theorem count_update_le [DecidableEq α] (slots : Nat → α) (k : Nat) {x y : α} (apart : x ≠ y)
    (tickets : List Nat) :
    (tickets.map fun t => Function.update slots k x (t % width)).count y ≤
      (tickets.map fun t => slots (t % width)).count y := by
  induction tickets with
  | nil => exact Nat.le_refl _
  | cons t rest ih =>
    rw [List.map_cons, List.map_cons, List.count_cons, List.count_cons]
    by_cases hit : t % width = k
    · rw [hit, Function.update_self, if_neg (by simpa using apart)]
      omega
    · rw [Function.update_of_ne hit]
      omega

/-- In a full ring the slot of the next ticket is unread. -/
theorem mem_contents_of_full (positive : 0 < width) (full : r.tail + width ≤ r.head) :
    r.slots (r.head % width) ∈ r.contents width := by
  have shared : (r.head - width) % width = r.head % width := by
    rw [← Nat.mod_eq_sub_mod (by omega)]
  rw [← shared]
  exact List.mem_map_of_mem (List.mem_range'_1.mpr ⟨by omega, by omega⟩)

/-- A store that does not fit loses an unread value. -/
theorem push_loses [DecidableEq α] (positive : 0 < width) (ordered : r.tail ≤ r.head)
    (lost : ¬ r.Fits width x) :
    ((r.push width x).contents width).count (r.slots (r.head % width)) <
      (r.contents width).count (r.slots (r.head % width)) := by
  rw [Fits, not_or, Nat.not_lt] at lost
  obtain ⟨full, differs⟩ := lost
  -- the unread ticket that shares the slot of the new one
  have cut : List.range' r.tail (r.head - r.tail) =
      List.range' r.tail (r.head - width - r.tail) ++
        (r.head - width) :: List.range' (r.head - width + 1) (width - 1) := by
    have width' : width - 1 + 1 = width := by omega
    have total : r.head - r.tail = (r.head - width - r.tail) + width := by omega
    have middle : r.tail + 1 * (r.head - width - r.tail) = r.head - width := by omega
    rw [← List.range'_succ, width', total, ← List.range'_append, middle]
  have shared : (r.head - width) % width = r.head % width := by
    rw [← Nat.mod_eq_sub_mod (by omega)]
  have before := @count_update_le α width _ r.slots (r.head % width) _ _ (Ne.symm differs)
    (List.range' r.tail (r.head - width - r.tail))
  have after := @count_update_le α width _ r.slots (r.head % width) _ _ (Ne.symm differs)
    (List.range' (r.head - width + 1) (width - 1))
  rw [contents_push_split ordered]
  unfold contents
  rw [cut]
  simp only [List.map_append, List.map_cons, List.count_append, List.count_cons, shared,
    Function.update_self, List.count_nil, beq_self_eq_true, if_true]
  rw [if_neg (by simpa using Ne.symm differs)]
  omega

end Ring

end Tickets
