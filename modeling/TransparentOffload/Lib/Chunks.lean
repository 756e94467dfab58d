import Mathlib.Data.List.Basic

set_option autoImplicit false

/- A stream cut into blocks of one width. Only whole blocks count; what is left
at the end belongs to a block that is still on its way. -/
namespace Chunks

variable {α : Type*}

/-- The whole blocks of a stream, in order. -/
def complete (width : Nat) (xs : List α) : List (List α) :=
  (List.range (xs.length / width)).map fun i => (xs.drop (i * width)).take width

theorem complete_short {width : Nat} {xs : List α} (short : xs.length < width) :
    complete width xs = [] := by
  unfold complete
  rw [Nat.div_eq_of_lt short]
  rfl

/-- The first block of a stream can be split off. -/
theorem complete_block {width : Nat} (positive : 0 < width) {block : List α}
    (whole : block.length = width) (rest : List α) :
    complete width (block ++ rest) = block :: complete width rest := by
  have count : (block ++ rest).length / width = rest.length / width + 1 := by
    rw [List.length_append, whole, Nat.add_comm, Nat.add_div_right _ positive]
  have first : (block ++ rest).take width = block := by
    rw [← whole, List.take_left]
  have later : ∀ i, ((block ++ rest).drop ((i + 1) * width)) = rest.drop (i * width) := by
    intro i
    have offset : (i + 1) * width = block.length + i * width := by
      rw [whole, Nat.add_mul, Nat.one_mul, Nat.add_comm]
    rw [offset, ← List.drop_drop, List.drop_left]
  unfold complete
  rw [count, List.range_succ_eq_map, List.map_cons, List.map_map]
  congr 1
  · simpa using first
  · apply List.map_congr_left
    intro i _
    show ((block ++ rest).drop ((i + 1) * width)).take width = _
    rw [later]

/-- Any number of whole blocks can be split off. -/
theorem complete_blocks {width : Nat} (positive : 0 < width) {blocks : List (List α)}
    (whole : ∀ block ∈ blocks, block.length = width) (rest : List α) :
    complete width (blocks.flatten ++ rest) = blocks ++ complete width rest := by
  induction blocks with
  | nil => simp
  | cons block blocks ih =>
    have here : block.length = width := whole block List.mem_cons_self
    have later := ih fun other member => whole other (List.mem_cons_of_mem block member)
    rw [List.flatten_cons, List.append_assoc, complete_block positive here, later,
      List.cons_append]

theorem complete_length {width : Nat} {xs block : List α} (member : block ∈ complete width xs) :
    block.length = width := by
  unfold complete at member
  obtain ⟨i, inside, rfl⟩ := List.mem_map.mp member
  have below : i < xs.length / width := List.mem_range.mp inside
  have fits : (i + 1) * width ≤ xs.length :=
    Nat.le_trans (Nat.mul_le_mul_right width below) (Nat.div_mul_le_self xs.length width)
  rw [Nat.add_mul, Nat.one_mul] at fits
  rw [List.length_take, List.length_drop]
  omega

/-- A stream is its whole blocks and a rest that is shorter than a block. -/
theorem complete_rest {width : Nat} (positive : 0 < width) (xs : List α) :
    ∃ rest, xs = (complete width xs).flatten ++ rest ∧ rest.length < width := by
  induction size : xs.length using Nat.strongRecOn generalizing xs with
  | ind n ih =>
    by_cases short : xs.length < width
    · exact ⟨xs, by rw [complete_short short]; rfl, short⟩
    · have block : (xs.take width).length = width := by
        rw [List.length_take]
        omega
      have smaller : (xs.drop width).length < n := by
        rw [List.length_drop]
        omega
      obtain ⟨rest, split, below⟩ := ih _ smaller (xs.drop width) rfl
      refine ⟨rest, ?_, below⟩
      have cut := complete_block positive block (xs.drop width)
      rw [List.take_append_drop] at cut
      rw [cut, List.flatten_cons, List.append_assoc, ← split, List.take_append_drop]

/-- A stream of whole blocks is nothing but them. -/
theorem complete_aligned {width : Nat} (positive : 0 < width) {xs : List α}
    (aligned : xs.length % width = 0) :
    ∃ blocks : List (List α), xs = blocks.flatten ∧ (∀ block ∈ blocks, block.length = width) ∧
      blocks.length = xs.length / width := by
  obtain ⟨rest, split, short⟩ := complete_rest positive xs
  have sizes : ∀ block ∈ complete width xs, block.length = width :=
    fun _ member => complete_length member
  have count : (complete width xs).length = xs.length / width := by
    rw [complete, List.length_map, List.length_range]
  have total : (complete width xs).flatten.length = xs.length / width * width := by
    rw [List.length_flatten, List.map_congr_left sizes, List.map_const', List.sum_replicate_nat,
      count]
  have length := congrArg List.length split
  rw [List.length_append, total] at length
  have whole := Nat.div_add_mod' xs.length width
  have none_ : rest = [] := List.length_eq_zero_iff.mp (by omega)
  exact ⟨complete width xs, by rw [none_, List.append_nil] at split; exact split, sizes, count⟩

/-- What arrives later only adds blocks. -/
theorem complete_append {width : Nat} (positive : 0 < width) (xs more : List α) :
    complete width xs <+: complete width (xs ++ more) := by
  obtain ⟨rest, split, _⟩ := complete_rest positive xs
  refine ⟨complete width (rest ++ more), ?_⟩
  rw [← complete_blocks positive (fun _ member => complete_length member), ← List.append_assoc,
    ← split]

end Chunks
