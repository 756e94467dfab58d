import TransparentOffload.InferenceSkel

set_option autoImplicit false

/- The blocks and the entries of the batch queue over whole runs. Every block is in one
place at any time, and every entry belongs to a round that has begun; how many rounds the
`int` that counts them allows is the only limit. -/
namespace TransparentOffload.InferenceSkel

namespace Handler

theorem waiting_le (h : Handler) : h.waiting ≤ 1 := by
  unfold waiting
  split <;> omega

end Handler

namespace Skel

variable {n : Nat} {iters : Int} {s t : Skel} {i : Nat} {h : Handler}

/-- What the handlers have together. -/
def total (f : Handler → Nat) (n : Nat) (s : Skel) : Nat :=
  ∑ i ∈ Finset.range n, f (s.handlers i)

theorem total_update (inside : i < n) (f : Handler → Nat)
    (handlers : t.handlers = Function.update s.handlers i h) :
    t.total f n + f (s.handlers i) = s.total f n + f h := by
  have changed : (fun j => f (t.handlers j)) =
      Function.update (fun j => f (s.handlers j)) i (f h) := by
    rw [handlers]
    exact Function.comp_update f s.handlers i h
  unfold total
  rw [changed]
  exact Counters.sum_update inside (fun j => f (s.handlers j)) (f h)

theorem total_le {f : Handler → Nat} {bound : Nat} (each : ∀ i < n, f (s.handlers i) ≤ bound) :
    s.total f n ≤ n * bound := by
  have sum := Finset.sum_le_card_nsmul (Finset.range n) (fun i => f (s.handlers i)) bound
    (fun i member => each i (Finset.mem_range.mp member))
  rwa [Finset.card_range] at sum

/-- Each block is free or with one handler; every round begun has one entry of the queue,
and the entries not yet taken out are as many as the handlers between enqueue and dequeue. -/
structure Inv (n : Nat) (iters : Int) (s : Skel) : Prop where
  blocks : s.pool.Exact (List.range nBlock) s.held
  outside : ∀ i, n ≤ i → s.held i = []
  rounds : ∀ i < n, (s.handlers i).begun ≤ iters.toNat
  head : s.q.head = s.total Handler.begun n
  tail : s.q.head = s.q.tail + s.total Handler.waiting n

theorem init_inv (n : Nat) (iters : Int) : Inv n iters init := by
  have zero : ∀ f : Handler → Nat, f ⟨0, [], .loop⟩ = 0 → init.total f n = 0 :=
    fun f none_ => Finset.sum_eq_zero fun _ _ => none_
  refine ⟨?_, fun _ _ => rfl, fun _ _ => Nat.zero_le _, ?_, ?_⟩
  · have all : init.stack = List.range nBlock := List.map_id _
    have distinct : init.stack.reverse.Nodup := by
      rw [all, List.nodup_reverse]
      exact List.nodup_range
    apply Allocator.Pool.Exact.start distinct
    intro b
    rw [all, List.mem_reverse]
  · rw [zero _ rfl]
    rfl
  · rw [zero _ rfl]
    rfl

/-- Of a state with the invariant. -/
theorem Inv.intact (inv : s.Inv n iters) : s.Intact n iters := by
  have items : (List.range nBlock).Nodup := List.nodup_range
  have parts : (s.stack ++ (List.range n).flatMap s.held).Perm (List.range nBlock) := by
    have all : ∀ i, i ∉ List.range n → s.held i = [] := by
      intro i beyond
      rw [List.mem_range, Nat.not_lt] at beyond
      exact inv.outside i beyond
    have whole := inv.blocks.perm items List.nodup_range all
    exact ((List.reverse_perm s.stack).symm.append_right _).trans whole
  have free : ∀ b, b ∈ s.stack ↔ b < nBlock ∧ s.blockOwner b = none := by
    intro b
    rw [← List.mem_reverse, ← List.mem_range]
    exact inv.blocks.mem_free b
  constructor
  · exact List.nodup_reverse.mp inv.blocks.free_nodup
  · exact free
  · exact parts
  · exact inv.blocks.once
  · have waiting := total_le (s := s) (n := n) fun i _ => (s.handlers i).waiting_le
    have tail := inv.tail
    omega
  · intro ended
    have none_ : (List.range n).flatMap s.held = [] := by
      apply List.flatMap_eq_nil_iff.mpr
      intro i member
      have place := (ended i (List.mem_range.mp member)).1
      rw [held, Handler.blocks, place]
    rw [none_, List.append_nil] at parts
    constructor
    · have length := parts.length_eq
      rw [stack, List.length_map, List.length_range, List.length_range] at length
      rw [leaked, length, Int.sub_self]
    · apply List.countP_eq_zero.mpr
      intro b member
      have unowned := ((free b).mp (parts.mem_iff.mpr member)).2
      simp [unowned]

/-- A step that only changes the handler that takes it, and its share of the counters. -/
theorem Inv.move (inv : s.Inv n iters) (inside : i < n)
    (handlers : t.handlers = s.handlers)
    (blocks : t.pool.Exact (List.range nBlock) (Function.update s.held i h.blocks))
    (rounds : h.begun ≤ iters.toNat)
    (head : t.q.head + (s.handlers i).begun = s.q.head + h.begun)
    (tail : t.q.tail + h.waiting + (s.handlers i).begun =
      s.q.tail + (s.handlers i).waiting + h.begun) :
    (t.setHandler i h).Inv n iters := by
  have after : (t.setHandler i h).handlers = Function.update s.handlers i h := by
    rw [← handlers]
    rfl
  have held : (t.setHandler i h).held = Function.update s.held i h.blocks := by
    funext j
    rw [Skel.held, after]
    exact congrFun (Function.comp_update Handler.blocks s.handlers i h) j
  constructor
  · rw [held]
    exact blocks
  · intro j beyond
    rw [held, Function.update_of_ne (by omega)]
    exact inv.outside j beyond
  · intro j below
    rw [after]
    by_cases own : j = i
    · rw [own, Function.update_self]
      exact rounds
    · rw [Function.update_of_ne own]
      exact inv.rounds j below
  · show t.q.head = _
    have begun := total_update inside Handler.begun after
    have before := inv.head
    omega
  · show t.q.head = t.q.tail + _
    have begun := total_update inside Handler.begun after
    have waiting := total_update inside Handler.waiting after
    have before := inv.head
    have between := inv.tail
    omega

theorem Inv.enqueue {wild : Skel} (inv : s.Inv n iters) (room : s.q.head ≠ intMax)
    (taken : step n iters s (.enqueue i wild) = some t) : t.Inv n iters := by
  rw [step] at taken
  split at taken
  · rename_i allowed
    obtain ⟨inside, place, more⟩ := allowed
    rw [Option.some.injEq] at taken
    rw [← taken]
    have none_ : (s.handlers i).blocks = [] := by rw [Handler.blocks, place]
    apply inv.move inside
    · rfl
    · show s.pool.Exact _ (Function.update s.held i [])
      rw [← none_]
      show s.pool.Exact _ (Function.update s.held i (s.held i))
      rw [Function.update_eq_self]
      exact inv.blocks
    all_goals
      simp only [Handler.begun, Handler.waiting, place, Tickets.Ring.push_head,
        Tickets.Ring.push_tail, if_true, reduceCtorEq, if_false]
      omega
  · cases taken

theorem Inv.allocate (inv : s.Inv n iters) (taken : step n iters s (.allocate i) = some t) :
    t.Inv n iters := by
  rw [step] at taken
  dsimp only at taken
  split at taken
  · rename_i allowed
    obtain ⟨inside, place⟩ := allowed
    rw [Option.some.injEq] at taken
    rw [← taken]
    have frame := allocBlocks_frame i nReqBlocks s
    have none_ : s.held i = [] := by rw [held, Handler.blocks, place]
    have given := allocBlocks_exact i nReqBlocks inv.blocks
    rw [none_, List.nil_append] at given
    have rounds := inv.rounds i inside
    rw [Handler.begun, place] at rounds
    apply inv.move inside
    · exact frame.2
    · exact given
    · exact rounds
    all_goals
      rw [frame.1]
      simp only [Handler.begun, Handler.waiting, place, reduceCtorEq, if_false]
  · cases taken

theorem Inv.offload (inv : s.Inv n iters) (taken : step n iters s (.offload i) = some t) :
    t.Inv n iters := by
  rw [step] at taken
  split at taken
  · rename_i allowed
    obtain ⟨inside, place⟩ := allowed
    rw [Option.some.injEq] at taken
    rw [← taken]
    have same : s.held i = (s.handlers i).mine.filterMap id := by rw [held, Handler.blocks, place]
    have rounds := inv.rounds i inside
    rw [Handler.begun, place] at rounds
    apply inv.move inside
    · rfl
    · show s.pool.Exact _ (Function.update s.held i ((s.handlers i).mine.filterMap id))
      rw [← same, Function.update_eq_self]
      exact inv.blocks
    · exact rounds
    all_goals
      simp only [Handler.begun, Handler.waiting, place, reduceCtorEq, if_false]
  · cases taken

/-- An entry waits as long as a handler is between its enqueue and its dequeue. -/
theorem Inv.waits (inv : s.Inv n iters) (inside : i < n)
    (waits : (s.handlers i).waiting = 1) : s.q.tail < s.q.head := by
  have one : (s.handlers i).waiting ≤ s.total Handler.waiting n :=
    Finset.single_le_sum (f := fun i => (s.handlers i).waiting) (fun _ _ => Nat.zero_le _)
      (Finset.mem_range.mpr inside)
  have tail := inv.tail
  omega

theorem Inv.release (inv : s.Inv n iters) (taken : step n iters s (.release i) = some t) :
    t.Inv n iters := by
  rw [step] at taken
  split at taken
  · rename_i allowed
    obtain ⟨inside, place⟩ := allowed
    rw [Option.some.injEq] at taken
    rw [← taken]
    have frame := freeBlocks_frame (s.handlers i).mine s
    have own : s.held i = (s.handlers i).mine.filterMap id := by rw [held, Handler.blocks, place]
    have freed := freeBlocks_exact inv.blocks own
    have waits : s.q.tail < s.q.head := by
      apply inv.waits inside
      rw [Handler.waiting, place]
    have rounds := inv.rounds i inside
    rw [Handler.begun, place] at rounds
    have taken_ : (s.freeBlocks (s.handlers i).mine).dequeue =
        { s.freeBlocks (s.handlers i).mine with q := s.q.advance } := by
      rw [dequeue, frame.1, if_pos waits]
    rw [taken_]
    apply inv.move inside
    · exact frame.2
    · exact freed
    · exact rounds
    · simp only [Handler.begun, place, Tickets.Ring.advance_head, reduceCtorEq, if_false]
    · simp only [Handler.begun, Handler.waiting, place, Tickets.Ring.advance_tail, reduceCtorEq,
        if_false]
  · cases taken

theorem Inv.handled (inv : s.Inv n iters) (taken : step n iters s (.handled i) = some t) :
    t.Inv n iters := by
  rw [step] at taken
  split at taken
  · rename_i allowed
    obtain ⟨inside, place⟩ := allowed
    rw [Option.some.injEq] at taken
    rw [← taken]
    have same : s.held i = [] := by rw [held, Handler.blocks, place]
    have rounds := inv.rounds i inside
    rw [Handler.begun, place] at rounds
    apply inv.move inside
    · rfl
    · show s.pool.Exact _ (Function.update s.held i [])
      rw [← same, Function.update_eq_self]
      exact inv.blocks
    · exact rounds
    all_goals
      simp only [Handler.begun, Handler.waiting, place, reduceCtorEq, if_false, if_true]
  · cases taken

theorem Inv.step {a : SkelAct} (inv : s.Inv n iters)
    (room : ∀ i wild, a = .enqueue i wild → s.q.head ≠ intMax)
    (taken : step n iters s a = some t) : t.Inv n iters := by
  cases a with
  | enqueue i wild => exact inv.enqueue (room i wild rfl) taken
  | allocate i => exact inv.allocate taken
  | offload i => exact inv.offload taken
  | release i => exact inv.release taken
  | handled i => exact inv.handled taken

/-- While the rounds of all handlers fit into an `int`, the counter is never at its end
when a round begins. -/
theorem Inv.room {wild : Skel} (inv : s.Inv n iters) (fits : (n : Int) * iters ≤ intMax)
    (taken : InferenceSkel.step n iters s (.enqueue i wild) = some t) : s.q.head ≠ intMax := by
  rw [InferenceSkel.step] at taken
  split at taken
  · rename_i allowed
    obtain ⟨inside, place, more⟩ := allowed
    have less : s.total Handler.begun n < ∑ _i ∈ Finset.range n, iters.toNat := by
      apply Finset.sum_lt_sum
      · intro j member
        exact inv.rounds j (Finset.mem_range.mp member)
      · refine ⟨i, Finset.mem_range.mpr inside, ?_⟩
        rw [Handler.begun, if_pos place]
        omega
    rw [Finset.sum_const, Finset.card_range] at less
    have positive : (iters.toNat : Int) = iters := Int.toNat_of_nonneg (by omega)
    rw [← positive] at fits
    have head := inv.head
    have bound : n * iters.toNat ≤ intMax := by exact_mod_cast fits
    have product : n • iters.toNat = n * iters.toNat := rfl
    omega
  · cases taken

theorem Inv.roomFor {a : SkelAct} (inv : s.Inv n iters) (fits : (n : Int) * iters ≤ intMax)
    (taken : InferenceSkel.step n iters s a = some t) (i : Nat) (wild : Skel)
    (same : a = .enqueue i wild) : s.q.head ≠ intMax := by
  rw [same] at taken
  exact inv.room fits taken

theorem reached_inv {acts : List SkelAct} (fits : (n : Int) * iters ≤ intMax)
    (ran : Machine.run (InferenceSkel.step n iters) init acts = some s) : s.Inv n iters := by
  apply Machine.invariant_reached _ (init_inv n iters) ran
  intro s a t inv taken
  exact inv.step (inv.roomFor fits taken) taken

/-- A round of handler `i` on its own. -/
def round (i : Nat) : List SkelAct :=
  [.enqueue i .init, .allocate i, .offload i, .release i, .handled i]

theorem dequeue_frame (s : Skel) :
    s.dequeue.q.head = s.q.head ∧ s.dequeue.handlers = s.handlers := by
  unfold dequeue
  split <;> exact ⟨rfl, rfl⟩

theorem round_runs (inside : i < n) (idle : (s.handlers i).place = .loop)
    (more : (s.handlers i).it < iters) (room : s.q.head ≠ intMax) :
    ∃ t mine, Machine.run (InferenceSkel.step n iters) s (round i) = some t ∧
      t.handlers = Function.update s.handlers i ⟨(s.handlers i).it + 1, mine, .loop⟩ ∧
      t.q.head = s.q.head + 1 := by
  obtain ⟨s₁, first, h₁, q₁⟩ : ∃ s₁, InferenceSkel.step n iters s (.enqueue i .init) = some s₁ ∧
      s₁.handlers = Function.update s.handlers i { s.handlers i with place := .enqueued } ∧
      s₁.q.head = s.q.head + 1 := by
    rw [InferenceSkel.step, if_pos ⟨inside, idle, more⟩, if_neg room]
    exact ⟨_, rfl, rfl, rfl⟩
  obtain ⟨s₂, mine, second, h₂, q₂⟩ : ∃ s₂ mine,
      InferenceSkel.step n iters s₁ (.allocate i) = some s₂ ∧
      s₂.handlers = Function.update s.handlers i ⟨(s.handlers i).it, mine, .allocated⟩ ∧
      s₂.q.head = s₁.q.head := by
    have frame := allocBlocks_frame i nReqBlocks s₁
    rw [InferenceSkel.step, if_pos ⟨inside, by rw [h₁, Function.update_self]⟩]
    refine ⟨_, (allocBlocks i nReqBlocks s₁).2, rfl, ?_, ?_⟩
    · show Function.update (allocBlocks i nReqBlocks s₁).1.handlers i _ = _
      rw [frame.2, h₁, Function.update_self, Function.update_idem]
    · show (allocBlocks i nReqBlocks s₁).1.q.head = _
      rw [frame.1]
  obtain ⟨s₃, third, h₃, q₃⟩ : ∃ s₃, InferenceSkel.step n iters s₂ (.offload i) = some s₃ ∧
      s₃.handlers = Function.update s.handlers i ⟨(s.handlers i).it, mine, .offloaded⟩ ∧
      s₃.q.head = s₂.q.head := by
    rw [InferenceSkel.step, if_pos ⟨inside, by rw [h₂, Function.update_self]⟩]
    refine ⟨_, rfl, ?_, rfl⟩
    show Function.update s₂.handlers i _ = _
    rw [h₂, Function.update_self, Function.update_idem]
  obtain ⟨s₄, fourth, h₄, q₄⟩ : ∃ s₄, InferenceSkel.step n iters s₃ (.release i) = some s₄ ∧
      s₄.handlers = Function.update s.handlers i ⟨(s.handlers i).it, mine, .released⟩ ∧
      s₄.q.head = s₃.q.head := by
    have frame := freeBlocks_frame (s₃.handlers i).mine s₃
    have taken := dequeue_frame (s₃.freeBlocks (s₃.handlers i).mine)
    rw [InferenceSkel.step, if_pos ⟨inside, by rw [h₃, Function.update_self]⟩]
    refine ⟨_, rfl, ?_, ?_⟩
    · show Function.update (s₃.freeBlocks (s₃.handlers i).mine).dequeue.handlers i _ = _
      rw [taken.2, frame.2, h₃, Function.update_self, Function.update_idem]
    · show (s₃.freeBlocks (s₃.handlers i).mine).dequeue.q.head = _
      rw [taken.1, frame.1]
  obtain ⟨s₅, fifth, h₅, q₅⟩ : ∃ s₅, InferenceSkel.step n iters s₄ (.handled i) = some s₅ ∧
      s₅.handlers = Function.update s.handlers i ⟨(s.handlers i).it + 1, mine, .loop⟩ ∧
      s₅.q.head = s₄.q.head := by
    rw [InferenceSkel.step, if_pos ⟨inside, by rw [h₄, Function.update_self]⟩]
    refine ⟨_, rfl, ?_, rfl⟩
    show Function.update s₄.handlers i _ = _
    rw [h₄, Function.update_self, Function.update_idem]
  refine ⟨s₅, mine, ?_, h₅, by omega⟩
  rw [round, Machine.run_cons_of_step first, Machine.run_cons_of_step second,
    Machine.run_cons_of_step third, Machine.run_cons_of_step fourth, Machine.run_one, fifth]

/-- While not all rounds have begun, there is a handler with one left. -/
theorem exists_todo (idle : ∀ i, (s.handlers i).place = .loop)
    (fewer : s.total Handler.begun n < n * iters.toNat) :
    ∃ i < n, (s.handlers i).it < iters := by
  have less : s.total Handler.begun n < ∑ _i ∈ Finset.range n, iters.toNat := by
    rw [Finset.sum_const, Finset.card_range]
    exact fewer
  obtain ⟨i, member, low⟩ := Finset.exists_lt_of_sum_lt less
  have here : (s.handlers i).begun = (s.handlers i).it := if_pos (idle i)
  exact ⟨i, Finset.mem_range.mp member, by omega⟩

/-- Any number of rounds can come one after another, up to what the handlers have to do and
the counter can count. -/
theorem rounds_run {k : Nat} (todo : k ≤ n * iters.toNat) (int : k ≤ intMax) :
    ∃ acts s, Machine.run (InferenceSkel.step n iters) init acts = some s ∧
      (∀ i, (s.handlers i).place = .loop) ∧ s.q.head = k ∧ s.total Handler.begun n = k := by
  induction k with
  | zero => exact ⟨[], init, rfl, fun _ => rfl, rfl, Finset.sum_eq_zero fun _ _ => rfl⟩
  | succ k ih =>
    obtain ⟨acts, s, ran, idle, head, begun⟩ := ih (by omega) (by omega)
    have fewer : s.total Handler.begun n < n * iters.toNat := begun.trans_lt todo
    obtain ⟨i, inside, more⟩ := exists_todo idle fewer
    obtain ⟨t, mine, round, handlers, moved⟩ := round_runs inside (idle i) more (by omega)
    refine ⟨acts ++ Skel.round i, t, ?_, ?_, by omega, ?_⟩
    · rw [Machine.run_append_of_run ran, round]
    · intro j
      rw [handlers]
      by_cases own : j = i
      · rw [own, Function.update_self]
      · rw [Function.update_of_ne own]
        exact idle j
    · have total := total_update inside Handler.begun handlers
      have one : (⟨(s.handlers i).it + 1, mine, .loop⟩ : Handler).begun = (s.handlers i).it + 1 :=
        rfl
      have here : (s.handlers i).begun = (s.handlers i).it := if_pos (idle i)
      omega

/-- With more rounds than an `int` can count, the counter of the queue overflows. -/
theorem overflows (more : (intMax : Int) < n * iters) (wild : Skel) :
    ∃ acts, Machine.run (InferenceSkel.step n iters) init acts = some wild := by
  have positive : 0 < iters := by
    by_contra none_
    have product : (n : Int) * iters ≤ 0 :=
      Int.mul_nonpos_of_nonneg_of_nonpos (Int.natCast_nonneg n) (by omega)
    unfold intMax at more
    omega
  have natural : (iters.toNat : Int) = iters := Int.toNat_of_nonneg (by omega)
  rw [← natural] at more
  have todo : intMax < n * iters.toNat := by exact_mod_cast more
  obtain ⟨acts, s, ran, idle, head, begun⟩ := rounds_run (Nat.le_of_lt todo) (Nat.le_refl _)
  obtain ⟨i, inside, next⟩ := exists_todo idle (begun.trans_lt todo)
  refine ⟨acts ++ [.enqueue i wild], ?_⟩
  rw [Machine.run_snoc ran, InferenceSkel.step, if_pos ⟨inside, idle i, next⟩, if_pos head]

/-- The blocks, the counters and the length of the queue stay as they should in every run
if and only if all rounds of all handlers together fit into the `int` that counts them. -/
theorem intact_iff_fits (n : Nat) (iters : Int) :
    (∀ acts s, Machine.run (InferenceSkel.step n iters) init acts = some s → s.Intact n iters) ↔
      n * iters ≤ intMax := by
  constructor
  · intro all
    by_contra tooMany
    have more : (intMax : Int) < n * iters := by omega
    obtain ⟨acts, ran⟩ := overflows more { init with gDoubleAlloc := 1 }
    cases (all acts _ ran).doubleAlloc
  · intro fits acts s ran
    exact (reached_inv fits ran).intact

theorem entriesOf_push (room : s.q.tail ≤ s.q.head) (slots : s.q.head < s.q.tail + qn)
    (j : Nat) : ({ s with q := s.q.push qn (i <<< 32) } : Skel).entriesOf j =
      s.entriesOf j + if i = j then 1 else 0 := by
  unfold entriesOf
  rw [Tickets.Ring.contents_push room slots, List.countP_append, List.countP_singleton,
    Nat.shiftLeft_shiftRight]
  simp only [beq_iff_eq]

theorem entriesOf_advance (more : s.q.tail < s.q.head) (j : Nat) :
    ({ s with q := s.q.advance } : Skel).entriesOf j ≤ s.entriesOf j := by
  unfold entriesOf
  rw [Tickets.Ring.contents_advance more]
  exact (List.sublist_cons_self _ _).countP_le

/-- A handler that is about to enqueue leaves a slot free. -/
theorem Inv.slot (inv : s.Inv n iters) (slots : n ≤ qn) (inside : i < n)
    (idle : (s.handlers i).place = .loop) : s.q.head < s.q.tail + qn := by
  have less : s.total Handler.waiting n < ∑ _i ∈ Finset.range n, 1 := by
    apply Finset.sum_lt_sum
    · exact fun j _ => (s.handlers j).waiting_le
    · refine ⟨i, Finset.mem_range.mpr inside, ?_⟩
      rw [Handler.waiting, idle]
      exact Nat.zero_lt_one
  rw [Finset.sum_const, Finset.card_range] at less
  have product : n • 1 = n := Nat.mul_one n
  have tail := inv.tail
  omega

/-- No handler has more entries than rounds it has begun. -/
def Begun (s : Skel) : Prop := ∀ j, s.entriesOf j ≤ (s.handlers j).begun

theorem Begun.move (begun : s.Begun) (handlers : t.handlers = s.handlers)
    (entries : ∀ j, t.entriesOf j ≤ s.entriesOf j) (same : h.begun = (s.handlers i).begun) :
    (t.setHandler i h).Begun := by
  intro j
  have before := begun j
  have fewer := entries j
  show t.entriesOf j ≤ (Function.update t.handlers i h j).begun
  rw [handlers]
  by_cases own : j = i
  · rw [own, Function.update_self, same]
    rw [own] at before fewer
    omega
  · rw [Function.update_of_ne own]
    omega

/-- The first entry of a handler that has had none. -/
theorem Begun.enqueue (begun : s.Begun) (inv : s.Inv n iters) (slots : n ≤ qn) (inside : i < n)
    (place : (s.handlers i).place = .loop) (first : (s.handlers i).it = 0)
    (begins : h.begun = 1) :
    ({ s with q := s.q.push qn (i <<< 32) }.setHandler i h).Begun := by
  intro j
  have before := begun j
  have pushed := entriesOf_push (i := i) (by have tail := inv.tail; omega)
    (inv.slot slots inside place) j
  show ({ s with q := s.q.push qn (i <<< 32) } : Skel).entriesOf j ≤
    (Function.update s.handlers i h j).begun
  rw [pushed]
  by_cases own : i = j
  · subst own
    rw [if_pos rfl, Function.update_self, begins]
    rw [Handler.begun, if_pos place, first] at before
    omega
  · rw [if_neg own, Function.update_of_ne (Ne.symm own)]
    exact before

/-- Giving the blocks back and taking the oldest entry out adds none. -/
theorem entriesOf_release (mine : List (Option Nat)) (j : Nat) :
    (s.freeBlocks mine).dequeue.entriesOf j ≤ s.entriesOf j := by
  have same : (s.freeBlocks mine).entriesOf j = s.entriesOf j := by
    rw [entriesOf, (freeBlocks_frame mine s).1]
    rfl
  rw [← same, dequeue]
  split
  · rename_i more
    exact entriesOf_advance more j
  · exact Nat.le_refl _

/-- With one round each, a handler that enqueues has had no entry. -/
theorem Begun.step {a : SkelAct} (begun : s.Begun) (inv : s.Inv n iters) (slots : n ≤ qn)
    (once : iters ≤ 1) (room : ∀ i wild, a = .enqueue i wild → s.q.head ≠ intMax)
    (taken : InferenceSkel.step n iters s a = some t) : t.Begun := by
  cases a with
  | enqueue i wild =>
    rw [InferenceSkel.step] at taken
    split at taken
    · rename_i allowed
      obtain ⟨inside, place, more⟩ := allowed
      have first : (s.handlers i).it = 0 := by omega
      rw [if_neg (room i wild rfl), Option.some.injEq, first, Nat.or_zero] at taken
      rw [← taken]
      apply begun.enqueue inv slots inside place first
      simp only [Handler.begun, reduceCtorEq, if_false]
    · cases taken
  | allocate i =>
    rw [InferenceSkel.step] at taken
    dsimp only at taken
    split at taken
    · rename_i allowed
      rw [Option.some.injEq] at taken
      rw [← taken]
      have frame := allocBlocks_frame i nReqBlocks s
      apply begun.move frame.2
      · intro j
        rw [entriesOf, frame.1]
        exact Nat.le_refl _
      · simp only [Handler.begun, allowed.2, reduceCtorEq, if_false]
    · cases taken
  | offload i =>
    rw [InferenceSkel.step] at taken
    split at taken
    · rename_i allowed
      rw [Option.some.injEq] at taken
      rw [← taken]
      apply begun.move rfl fun j => Nat.le_refl _
      simp only [Handler.begun, allowed.2, reduceCtorEq, if_false]
    · cases taken
  | release i =>
    rw [InferenceSkel.step] at taken
    split at taken
    · rename_i allowed
      rw [Option.some.injEq] at taken
      rw [← taken]
      have freed := freeBlocks_frame (s.handlers i).mine s
      have left := dequeue_frame (s.freeBlocks (s.handlers i).mine)
      apply begun.move (left.2.trans freed.2) (entriesOf_release _)
      simp only [Handler.begun, allowed.2, reduceCtorEq, if_false]
    · cases taken
  | handled i =>
    rw [InferenceSkel.step] at taken
    split at taken
    · rename_i allowed
      rw [Option.some.injEq] at taken
      rw [← taken]
      apply begun.move (t := { s with gHandled := s.gHandled + 1 }) rfl fun j => Nat.le_refl _
      simp only [Handler.begun, allowed.2, reduceCtorEq, if_false, if_true]
    · cases taken

/-- More handlers and more rounds leave every step possible. -/
theorem step_grows {n' : Nat} {iters' : Int} {a : SkelAct} (more : n ≤ n')
    (longer : iters ≤ iters') (taken : InferenceSkel.step n iters s a = some t) :
    InferenceSkel.step n' iters' s a = some t := by
  cases a with
  | enqueue i wild =>
    rw [InferenceSkel.step] at taken ⊢
    split at taken
    · rename_i allowed
      rw [if_pos ⟨by omega, allowed.2.1, by omega⟩]
      exact taken
    · cases taken
  | allocate i | offload i | release i | handled i =>
    rw [InferenceSkel.step] at taken ⊢
    split at taken
    · rename_i allowed
      rw [if_pos ⟨by omega, allowed.2⟩]
      exact taken
    · cases taken

theorem run_grows {n' : Nat} {iters' : Int} {acts : List SkelAct} (more : n ≤ n')
    (longer : iters ≤ iters') (ran : Machine.run (InferenceSkel.step n iters) s acts = some t) :
    Machine.run (InferenceSkel.step n' iters') s acts = some t := by
  induction acts generalizing s with
  | nil => exact ran
  | cons a rest ih =>
    obtain ⟨u, taken, later⟩ := Machine.run_cons_eq_some.mp ran
    rw [Machine.run_cons_of_step (step_grows more longer taken)]
    exact ih later

/-- Handler 1 takes the entry of handler 0 out, and enqueues its next round. -/
def overtaking : List SkelAct :=
  [.enqueue 0 init, .enqueue 1 init, .allocate 1, .offload 1, .release 1, .handled 1,
    .enqueue 1 init]

theorem overtaking_entries :
    (Machine.run (InferenceSkel.step 2 2) init overtaking).map (fun s => s.entriesOf 1) =
      some 2 := by
  decide +kernel

/-- The blocks, the counters and the queue, with one entry per handler, stay as they should
in every run if and only if there is one handler or one round, and all rounds fit into the
`int` that counts them. Without the bound on each handler's entries the second alone decides. -/
theorem intact_iff_alone_or_once (n : Nat) (iters : Int) (slots : n ≤ qn) :
    ((∀ acts s, Machine.run (InferenceSkel.step n iters) init acts = some s →
        s.Intact n iters ∧ s.OnePerHandler n) ↔
      n * iters ≤ intMax ∧ (n ≤ 1 ∨ iters ≤ 1)) ∧
    ((∀ acts s, Machine.run (InferenceSkel.step n iters) init acts = some s →
        s.Intact n iters) ↔ n * iters ≤ intMax) := by
  refine ⟨⟨?_, ?_⟩, intact_iff_fits n iters⟩
  · intro all
    refine ⟨(intact_iff_fits n iters).mp fun acts s ran => (all acts s ran).1, ?_⟩
    by_contra several
    obtain ⟨s, ran, two⟩ := Option.map_eq_some_iff.mp overtaking_entries
    have ran' : Machine.run (InferenceSkel.step n iters) init overtaking = some s :=
      run_grows (by omega) (by omega) ran
    have one := (all overtaking s ran').2 1 (by omega)
    omega
  · rintro ⟨fits, few⟩ acts s ran
    have inv := reached_inv fits ran
    refine ⟨inv.intact, ?_⟩
    intro i inside
    rcases few with alone | once
    · have bound := inv.intact.queue
      have all : s.entriesOf i ≤ (s.q.contents qn).length := List.countP_le_length
      rw [Tickets.Ring.length_contents] at all
      omega
    · have both : s.Inv n iters ∧ s.Begun := by
        apply Machine.invariant_reached (I := fun s => s.Inv n iters ∧ s.Begun) _
          ⟨init_inv n iters, fun j => Nat.zero_le _⟩ ran
        rintro s a t ⟨inv, begun⟩ taken
        have room := inv.roomFor fits taken
        exact ⟨inv.step room taken, begun.step inv slots once room taken⟩
      have entries := both.2 i
      have rounds := inv.rounds i inside
      omega

/-- Two handlers with two rounds each: handler 1 has two entries in the queue. -/
theorem twoHandlers_twoEntries :
    ¬ ∀ acts s, Machine.run (InferenceSkel.step 2 2) init acts = some s →
      s.Intact 2 2 ∧ s.OnePerHandler 2 := by
  intro all
  obtain ⟨s, ran, two⟩ := Option.map_eq_some_iff.mp overtaking_entries
  have one := (all overtaking s ran).2 1 (by omega)
  omega

theorem manyHandlers_oneRound : ∃ s,
    Machine.run (InferenceSkel.step 64 1) init (round 63 ++ [.enqueue 5 init]) = some s ∧
      s.entriesOf 5 = 1 ∧ s.Intact 64 1 ∧ s.OnePerHandler 64 := by
  have entries : (Machine.run (InferenceSkel.step 64 1) init
      (round 63 ++ [.enqueue 5 init])).map (fun s => s.entriesOf 5) = some 1 := by
    decide +kernel
  obtain ⟨s, ran, one⟩ := Option.map_eq_some_iff.mp entries
  exact ⟨s, ran, one, (intact_iff_alone_or_once 64 1 (by decide)).1.mpr
    ⟨by decide, Or.inr (by decide)⟩ _ s ran⟩

end Skel

end TransparentOffload.InferenceSkel
