import TransparentOffload.Lib.Chunks

set_option autoImplicit false

/- A party that answers the blocks of a stream one after the other, each by its place in
the stream. What it has written is always a part of the answers it owes. -/
namespace Dialogue

variable {α : Type*}

/-- The width of a block, and the answer to the block of a number. -/
structure Rule (α : Type*) where
  width : Nat
  positive : 0 < width
  answer : Nat → List α → List α

/-- The answers to the first blocks. -/
def Rule.answers (r : Rule α) (blocks : List (List α)) : List α :=
  (blocks.mapIdx r.answer).flatten

/-- The answers to all blocks that have arrived whole. -/
def Rule.owed (r : Rule α) (arrived : List α) : List α :=
  r.answers (Chunks.complete r.width arrived)

/-- A party's place: with a part of the next block, in its answer, or gone. -/
inductive Stage (α : Type*)
  | reading (part : List α)
  | writing (out : List α) (put : Nat)
  | gone

/-- The party's end of the stream: all that has arrived, what of it is unread, and all
that was written. -/
structure Wire (α : Type*) where
  arrived : List α
  rx : List α
  tx : List α

/-- Where a party stands that has answered the blocks of `served`. -/
def Standing (r : Rule α) (w : Wire α) (served : List (List α)) : Stage α → Prop
  | .reading part => w.arrived = served.flatten ++ (part ++ w.rx) ∧ part.length ≤ r.width ∧
      w.tx = r.answers served
  | .writing out put => ∃ block : List α, w.arrived = served.flatten ++ (block ++ w.rx) ∧
      block.length = r.width ∧ out = r.answer served.length block ∧
      w.tx = r.answers served ++ out.take put
  | .gone => w.tx <+: r.owed w.arrived

/-- A party that has answered `k` blocks, each of them whole. -/
def Serves (r : Rule α) (w : Wire α) (k : Nat) (stage : Stage α) : Prop :=
  ∃ served : List (List α), served.length = k ∧ (∀ block ∈ served, block.length = r.width) ∧
    Standing r w served stage

variable {r : Rule α} {w : Wire α} {k : Nat} {stage : Stage α} {served : List (List α)}

theorem answers_append (r : Rule α) (first second : List (List α)) :
    r.answers (first ++ second) = r.answers first ++
      (second.mapIdx fun i => r.answer (i + first.length)).flatten := by
  unfold Rule.answers
  rw [List.mapIdx_append, List.flatten_append]

theorem answers_isPrefix (r : Rule α) (first second : List (List α)) :
    r.answers first <+: r.answers (first ++ second) :=
  ⟨_, (answers_append r first second).symm⟩

theorem answers_snoc (r : Rule α) (served : List (List α)) (block : List α) :
    r.answers (served ++ [block]) = r.answers served ++ r.answer served.length block := by
  rw [answers_append]
  simp

/-- More input only adds answers. -/
theorem owed_append (r : Rule α) (arrived more : List α) :
    r.owed arrived <+: r.owed (arrived ++ more) := by
  obtain ⟨rest, split⟩ := Chunks.complete_append r.positive arrived more
  unfold Rule.owed
  rw [← split]
  exact answers_isPrefix r _ rest

/-- One more block behind whole ones adds its own answer. -/
theorem owed_snoc (r : Rule α) {arrived block : List α} (aligned : arrived.length % r.width = 0)
    (whole : block.length = r.width) :
    r.owed (arrived ++ block) = r.owed arrived ++ r.answer (arrived.length / r.width) block := by
  obtain ⟨blocks, split, size, count⟩ := Chunks.complete_aligned r.positive aligned
  have none_ : Chunks.complete r.width ([] : List α) = [] := Chunks.complete_short r.positive
  have single : Chunks.complete r.width block = [block] := by
    have first := Chunks.complete_block r.positive whole []
    rwa [List.append_nil, none_] at first
  have all : Chunks.complete r.width (arrived ++ block) = blocks ++ [block] := by
    conv_lhs => rw [split]
    rw [Chunks.complete_blocks r.positive size, single]
  have old : Chunks.complete r.width arrived = blocks := by
    have cut := Chunks.complete_blocks r.positive size []
    rwa [List.append_nil, ← split, none_, List.append_nil] at cut
  rw [Rule.owed, all, answers_snoc, Rule.owed, old, count]

/-- Answers of one length add up to a multiple of it. -/
theorem length_owed (r : Rule α) {n : Nat} (even : ∀ i block, (r.answer i block).length = n)
    (arrived : List α) : (r.owed arrived).length = arrived.length / r.width * n := by
  have blocks : (Chunks.complete r.width arrived).length = arrived.length / r.width := by
    rw [Chunks.complete, List.length_map, List.length_range]
  have sizes : ((Chunks.complete r.width arrived).mapIdx r.answer).map List.length =
      List.replicate (arrived.length / r.width) n := by
    rw [List.eq_replicate_iff, List.length_map, List.length_mapIdx]
    refine ⟨blocks, ?_⟩
    intro size member
    obtain ⟨answer, found, same⟩ := List.mem_map.mp member
    obtain ⟨i, inside, made⟩ := List.mem_mapIdx.mp found
    rw [← same, ← made, even]
  rw [Rule.owed, Rule.answers, List.length_flatten, sizes, List.sum_replicate_nat]

/-- The answers to the blocks a party has served come first. -/
theorem served_isPrefix (whole : ∀ block ∈ served, block.length = r.width) {rest : List α}
    (arrived : w.arrived = served.flatten ++ rest) :
    r.answers served <+: r.owed w.arrived := by
  unfold Rule.owed
  rw [arrived, Chunks.complete_blocks r.positive whole]
  exact answers_isPrefix r served _

/-- What a party has written is a part of what it owes. -/
theorem Serves.tx_isPrefix (serves : Serves r w k stage) : w.tx <+: r.owed w.arrived := by
  obtain ⟨served, _, whole, standing⟩ := serves
  cases stage with
  | reading part =>
    obtain ⟨arrived, _, tx⟩ := standing
    rw [tx]
    exact served_isPrefix whole arrived
  | writing out put =>
    obtain ⟨block, arrived, size, rfl, tx⟩ := standing
    have more : ∀ other ∈ served ++ [block], other.length = r.width := by
      intro other member
      rcases List.mem_append.mp member with old | new
      · exact whole other old
      · exact List.mem_singleton.mp new ▸ size
    have longer : w.arrived = (served ++ [block]).flatten ++ w.rx := by
      rw [arrived]
      simp
    refine List.IsPrefix.trans ?_ (served_isPrefix more longer)
    rw [tx, answers_snoc]
    exact (List.prefix_append_right_inj _).mpr (List.take_prefix _ _)
  | gone => exact standing

/-- A party that waits for more of a block has written all it owes. -/
theorem Serves.all_answered {part : List α} (serves : Serves r w k (.reading part))
    (unread : w.rx = []) (short : part.length < r.width) : w.tx = r.owed w.arrived := by
  obtain ⟨served, _, whole, arrived, _, tx⟩ := serves
  unfold Rule.owed
  rw [arrived, unread, List.append_nil, Chunks.complete_blocks r.positive whole,
    Chunks.complete_short short, List.append_nil]
  exact tx

theorem Serves.start (r : Rule α) : Serves r ⟨[], [], []⟩ 0 (.reading []) :=
  ⟨[], rfl, nofun, rfl, Nat.zero_le _, rfl⟩

theorem Serves.arrive (serves : Serves r w k stage) (more : List α) :
    Serves r ⟨w.arrived ++ more, w.rx ++ more, w.tx⟩ k stage := by
  obtain ⟨served, count, whole, standing⟩ := serves
  refine ⟨served, count, whole, ?_⟩
  have later : ∀ part : List α, w.arrived = served.flatten ++ (part ++ w.rx) →
      w.arrived ++ more = served.flatten ++ (part ++ (w.rx ++ more)) := by
    intro part arrived
    rw [arrived, List.append_assoc, List.append_assoc]
  cases stage with
  | reading part =>
    obtain ⟨arrived, size, tx⟩ := standing
    exact ⟨later part arrived, size, tx⟩
  | writing out put =>
    obtain ⟨block, arrived, size, same, tx⟩ := standing
    exact ⟨block, later block arrived, size, same, tx⟩
  | gone => exact List.IsPrefix.trans standing (owed_append r w.arrived more)

/-- The party takes the next bytes of its block off the stream. -/
theorem Serves.read {part bs rest : List α} (serves : Serves r w k (.reading part))
    (unread : w.rx = bs ++ rest) (fits : part.length + bs.length ≤ r.width) :
    Serves r ⟨w.arrived, rest, w.tx⟩ k (.reading (part ++ bs)) := by
  obtain ⟨served, count, whole, arrived, _, tx⟩ := serves
  refine ⟨served, count, whole, ?_, ?_, tx⟩
  · rw [arrived, unread, List.append_assoc]
  · rw [List.length_append]
    exact fits

/-- It turns to the answer of a whole block. -/
theorem Serves.turn {part : List α} (serves : Serves r w k (.reading part))
    (whole : part.length = r.width) : Serves r w k (.writing (r.answer k part) 0) := by
  obtain ⟨served, count, blocks, arrived, _, tx⟩ := serves
  refine ⟨served, count, blocks, part, arrived, whole, by rw [count], ?_⟩
  rw [List.take_zero, List.append_nil]
  exact tx

/-- It writes the next bytes of its answer. -/
theorem Serves.write {out : List α} {put : Nat} (serves : Serves r w k (.writing out put))
    (n : Nat) :
    Serves r ⟨w.arrived, w.rx, w.tx ++ (out.drop put).take n⟩ k (.writing out (put + n)) := by
  obtain ⟨served, count, blocks, block, arrived, size, same, tx⟩ := serves
  refine ⟨served, count, blocks, block, arrived, size, same, ?_⟩
  dsimp only
  rw [tx, List.append_assoc, List.take_add]

/-- It is through with its answer. -/
theorem Serves.done {out : List α} {put : Nat} (serves : Serves r w k (.writing out put))
    (all : out.length ≤ put) : Serves r w (k + 1) (.reading []) := by
  obtain ⟨served, count, blocks, block, arrived, size, same, tx⟩ := serves
  refine ⟨served ++ [block], by rw [List.length_append, count]; rfl, ?_, ?_, Nat.zero_le _, ?_⟩
  · intro other member
    rcases List.mem_append.mp member with old | new
    · exact blocks other old
    · exact List.mem_singleton.mp new ▸ size
  · rw [arrived]
    simp
  · rw [tx, List.take_of_length_le all, answers_snoc, same]

/-- It leaves. -/
theorem Serves.quit (serves : Serves r w k stage) : Serves r w k .gone := by
  have written := serves.tx_isPrefix
  obtain ⟨served, count, blocks, _⟩ := serves
  exact ⟨served, count, blocks, written⟩

end Dialogue
