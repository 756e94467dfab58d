import TransparentOffload.Lib.Dialogue

set_option autoImplicit false

/- The asking side of a dialogue: a party sends requests as wide as the rule's blocks,
one behind the other, and takes the answers off the stream in pieces. -/
namespace Dialogue

variable {α : Type*} {r : Rule α} {request : Nat → List α} {tx more part : List α}
  {w n j taken : Nat}

/-- The first requests. -/
def asked (request : Nat → List α) (n : Nat) : List α := ((List.range n).map request).flatten

@[simp] theorem asked_zero : asked request 0 = [] := rfl

theorem asked_succ (request : Nat → List α) (n : Nat) :
    asked request (n + 1) = asked request n ++ request n := by
  rw [asked, List.range_succ, List.map_append, List.flatten_append]
  simp [asked]

theorem length_asked (size : ∀ k, (request k).length = w) (n : Nat) :
    (asked request n).length = n * w := by
  induction n with
  | zero => simp
  | succ n ih => rw [asked_succ, List.length_append, ih, size, Nat.succ_mul]

theorem asked_isPrefix {m : Nat} (below : n ≤ m) : asked request n <+: asked request m := by
  obtain ⟨d, rfl⟩ := Nat.exists_eq_add_of_le below
  induction d with
  | zero => exact List.prefix_rfl
  | succ d ih =>
    rw [← Nat.add_assoc, asked_succ]
    exact (ih (Nat.le_add_right n d)).trans (List.prefix_append _ _)

/-- One block of a row of blocks. -/
theorem block_asked (size : ∀ k, (request k).length = w) (inside : j < n) :
    ((asked request n).drop (j * w)).take w = request j := by
  have whole : asked request (j + 1) <+: asked request n := asked_isPrefix inside
  obtain ⟨rest, same⟩ := whole
  rw [← same, asked_succ, List.append_assoc, ← length_asked size j, List.drop_left,
    List.take_left' (size j)]

/-- Requests and answers are as wide as the rule's blocks. -/
structure Rule.Even (r : Rule α) (request : Nat → List α) : Prop where
  asks : ∀ k, (request k).length = r.width
  answers : ∀ k block, block.length = r.width → (r.answer k block).length = r.width

theorem owed_asked (even : r.Even request) (n : Nat) :
    r.owed (asked request n) = asked (fun k => r.answer k (request k)) n := by
  have blocks : ∀ block ∈ (List.range n).map request, block.length = r.width := by
    intro block member
    obtain ⟨k, _, rfl⟩ := List.mem_map.mp member
    exact even.asks k
  have none_ : Chunks.complete r.width ([] : List α) = [] := Chunks.complete_short r.positive
  have whole := Chunks.complete_blocks r.positive blocks []
  rw [List.append_nil, none_, List.append_nil] at whole
  rw [Rule.owed, asked, whole, Rule.answers, asked]
  congr 1
  apply List.ext_getElem
  · simp
  · intro k _ _
    simp

/-- Who answers a part of the requests by the rule answers each of them by it. -/
theorem answer_heard (even : r.Even request) {arrived : List α}
    (sent : arrived <+: asked request n) (answers : tx <+: r.owed arrived)
    (whole : j * r.width + r.width ≤ tx.length) :
    (tx.drop (j * r.width)).take r.width = r.answer j (request j) := by
  have size : ∀ k, (r.answer k (request k)).length = r.width :=
    fun k => even.answers k _ (even.asks k)
  have all : tx <+: asked (fun k => r.answer k (request k)) n := by
    obtain ⟨rest, same⟩ := sent
    rw [← owed_asked even, ← same]
    exact answers.trans (owed_append r arrived rest)
  have inside : j < n := by
    have long := all.length_le
    rw [length_asked size] at long
    by_contra beyond
    have most : n * r.width ≤ j * r.width := Nat.mul_le_mul_right _ (Nat.le_of_not_lt beyond)
    have positive := r.positive
    omega
  obtain ⟨rest, same⟩ := all
  rw [← block_asked size inside, ← same, List.drop_append_of_le_length (by omega),
    List.take_append_of_le_length (by rw [List.length_drop]; omega)]

/-- A party that has taken `j` answers off the stream, and a part of the next. -/
structure Hears (w : Nat) (tx : List α) (taken j : Nat) (part : List α) : Prop where
  position : taken = j * w + part.length
  behind : taken ≤ tx.length
  bytes : (tx.drop (j * w)).take part.length = part

theorem Hears.start (w : Nat) (tx : List α) : Hears w tx 0 0 [] :=
  ⟨by simp, Nat.zero_le _, rfl⟩

/-- More answers do not change what was heard. -/
theorem Hears.extend {tx' : List α} (hears : Hears w tx taken j part) (longer : tx <+: tx') :
    Hears w tx' taken j part := by
  obtain ⟨rest, rfl⟩ := longer
  have behind := hears.behind
  have position := hears.position
  refine ⟨position, ?_, ?_⟩
  · rw [List.length_append]
    omega
  · rw [List.drop_append_of_le_length (by omega),
      List.take_append_of_le_length (by rw [List.length_drop]; omega)]
    exact hears.bytes

/-- The next bytes of an answer. -/
theorem Hears.take {rest : List α} (hears : Hears w tx taken j part)
    (unread : tx.drop taken = more ++ rest) :
    Hears w tx (taken + more.length) j (part ++ more) := by
  have position := hears.position
  have size : tx.length - taken = more.length + rest.length := by
    rw [← List.length_drop, unread, List.length_append]
  have behind := hears.behind
  refine ⟨?_, by omega, ?_⟩
  · rw [List.length_append]
    omega
  · rw [List.length_append, List.take_add, hears.bytes, List.drop_drop, ← position, unread,
      List.take_left]

/-- A whole answer has been heard. -/
theorem Hears.next (hears : Hears w tx taken j part) (whole : part.length = w) :
    Hears w tx taken (j + 1) [] := by
  have position := hears.position
  refine ⟨?_, hears.behind, rfl⟩
  rw [List.length_nil, Nat.succ_mul]
  omega

end Dialogue
