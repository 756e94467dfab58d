import TransparentOffload.Lib.Allocator
import TransparentOffload.Lib.Counters
import TransparentOffload.Lib.Run
import TransparentOffload.Lib.TicketRing

set_option autoImplicit false

/- `inference_skel locked`: handlers that share the allocator of the KV-cache blocks and
the batch queue. The sections between `lk` and `ul` exclude each other, so each of them
is one step. -/
namespace TransparentOffload.InferenceSkel

/-- `NBLOCK`. -/
def nBlock : Nat := 2048

/-- `NREQ_BLOCKS`. -/
def nReqBlocks : Nat := 4

/-- `QN`. -/
def qn : Nat := 4096

/-- The largest `int`. -/
def intMax : Nat := 2147483647

/-- Where a handler is: at the test of its loop, behind one of the three sections, or
behind `brief_offload`. -/
inductive Place where
  | loop
  | enqueued
  | allocated
  | offloaded
  | released
  deriving DecidableEq, Repr

/-- The variables of a handler; in `mine`, `none` is -1. -/
structure Handler where
  it : Nat
  mine : List (Option Nat)
  place : Place
  deriving DecidableEq, Repr

namespace Handler

/-- The blocks it has, between allocation and release. -/
def blocks (h : Handler) : List Nat :=
  match h.place with
  | .allocated | .offloaded => h.mine.filterMap id
  | _ => []

/-- How many rounds it has begun, each with an entry in the batch queue. -/
def begun (h : Handler) : Nat := if h.place = .loop then h.it else h.it + 1

/-- 1 between its enqueue and its dequeue. -/
def waiting (h : Handler) : Nat :=
  match h.place with
  | .loop | .released => 0
  | _ => 1

end Handler

/-- The globals, where `none` as an owner is -1, and the handlers by their `id`. -/
structure Skel where
  freeList : Nat → Nat
  freeTop : Nat
  blockOwner : Nat → Option Nat
  gDoubleAlloc : Nat
  gHandled : Nat
  q : Tickets.Ring Nat
  handlers : Nat → Handler

/-- After the first loop of `main`, with every handler at its start. -/
def Skel.init : Skel :=
  { freeList := id, freeTop := nBlock, blockOwner := fun _ => none, gDoubleAlloc := 0
    gHandled := 0, q := ⟨fun _ => 0, 0, 0⟩, handlers := fun _ => ⟨0, [], .loop⟩ }

namespace Skel

def setHandler (s : Skel) (i : Nat) (h : Handler) : Skel :=
  { s with handlers := Function.update s.handlers i h }

/-- One round of the loop that allocates, with what it stores in `mine[b]`. -/
def allocBlock (s : Skel) (id : Nat) : Skel × Option Nat :=
  if 0 < s.freeTop then
    let top := s.freeTop - 1
    let blk := s.freeList top
    ({ s with
      freeTop := top
      gDoubleAlloc := if s.blockOwner blk ≠ none then s.gDoubleAlloc + 1 else s.gDoubleAlloc
      blockOwner := Function.update s.blockOwner blk (some id) }, some blk)
  else (s, none)

/-- So many rounds of it. -/
def allocBlocks (id : Nat) : Nat → Skel → Skel × List (Option Nat)
  | 0, s => (s, [])
  | rounds + 1, s =>
    let one := s.allocBlock id
    let rest := allocBlocks id rounds one.1
    (rest.1, one.2 :: rest.2)

/-- The loop that frees. -/
def freeBlocks (s : Skel) : List (Option Nat) → Skel
  | [] => s
  | none :: rest => s.freeBlocks rest
  | some blk :: rest =>
    freeBlocks { s with
      blockOwner := Function.update s.blockOwner blk none
      freeList := Function.update s.freeList s.freeTop blk
      freeTop := s.freeTop + 1 } rest

/-- `if(q_tail<q_head) q_tail++`. -/
def dequeue (s : Skel) : Skel := if s.q.tail < s.q.head then { s with q := s.q.advance } else s

end Skel

/-- One section, the offload, or the end of a round of handler `i`. Behind `q_head++` at the
largest `int` the program has no defined state; `wild` is what comes then. -/
inductive SkelAct where
  | enqueue (i : Nat) (wild : Skel)
  | allocate (i : Nat)
  | offload (i : Nat)
  | release (i : Nat)
  | handled (i : Nat)

/-- `n` handlers with `ITERS` rounds each. -/
def step (n : Nat) (iters : Int) (s : Skel) : SkelAct → Option Skel
  | .enqueue i wild =>
    let h := s.handlers i
    if i < n ∧ h.place = .loop ∧ h.it < iters then
      if s.q.head = intMax then some wild
      else some ({ s with q := s.q.push qn (i <<< 32 ||| h.it) }.setHandler i
        { h with place := .enqueued })
    else none
  | .allocate i =>
    let h := s.handlers i
    if i < n ∧ h.place = .enqueued then
      let got := Skel.allocBlocks i nReqBlocks s
      some (got.1.setHandler i { h with mine := got.2, place := .allocated })
    else none
  | .offload i =>
    let h := s.handlers i
    if i < n ∧ h.place = .allocated then some (s.setHandler i { h with place := .offloaded })
    else none
  | .release i =>
    let h := s.handlers i
    if i < n ∧ h.place = .offloaded then
      some ((s.freeBlocks h.mine).dequeue.setHandler i { h with place := .released })
    else none
  | .handled i =>
    let h := s.handlers i
    if i < n ∧ h.place = .released then
      some ({ s with gHandled := s.gHandled + 1 }.setHandler i
        { h with it := h.it + 1, place := .loop })
    else none

namespace Skel

/-- The entries `free_list[0..free_top)`. -/
def stack (s : Skel) : List Nat := (List.range s.freeTop).map s.freeList

/-- The blocks of each handler. -/
def held (s : Skel) (i : Nat) : List Nat := (s.handlers i).blocks

/-- All handlers have returned. -/
def Ended (n : Nat) (iters : Int) (s : Skel) : Prop :=
  ∀ i < n, (s.handlers i).place = .loop ∧ ¬ (s.handlers i).it < iters

/-- `leaked`, at the end of `main`. -/
def leaked (s : Skel) : Int := nBlock - s.freeTop

/-- `still_owned`. -/
def stillOwned (s : Skel) : Nat := (List.range nBlock).countP fun b => (s.blockOwner b).isSome

/-- The entries of the batch queue with handler `i` as their `id`. -/
def entriesOf (s : Skel) (i : Nat) : Nat := (s.q.contents qn).countP fun e => e >>> 32 == i

/-- The batch queue never holds more than one entry per handler. -/
def OnePerHandler (n : Nat) (s : Skel) : Prop := ∀ i < n, s.entriesOf i ≤ 1

/-- The free blocks are those without an owner, once each, and with the blocks of the
handlers they are all the blocks; none was allocated twice; the batch queue has as many
entries as there are handlers at most; and at the end nothing is lost. -/
structure Intact (n : Nat) (iters : Int) (s : Skel) : Prop where
  distinct : s.stack.Nodup
  free : ∀ b, b ∈ s.stack ↔ b < nBlock ∧ s.blockOwner b = none
  parts : (s.stack ++ (List.range n).flatMap s.held).Perm (List.range nBlock)
  doubleAlloc : s.gDoubleAlloc = 0
  queue : s.q.tail ≤ s.q.head ∧ s.q.head ≤ s.q.tail + n
  ended : s.Ended n iters → s.leaked = 0 ∧ s.stillOwned = 0

/-- The allocator, with the top of its stack in front. -/
def pool (s : Skel) : Allocator.Pool Nat Nat := ⟨s.stack.reverse, s.blockOwner, s.gDoubleAlloc⟩

theorem allocBlock_pool (s : Skel) (i : Nat) :
    (s.allocBlock i).1.pool = (s.pool.take i).1 ∧ (s.allocBlock i).2 = (s.pool.take i).2 := by
  cases top : s.freeTop with
  | zero =>
    have empty : s.pool = ⟨[], s.blockOwner, s.gDoubleAlloc⟩ := by simp [pool, stack, top]
    have same : s.allocBlock i = (s, none) := by simp [allocBlock, top]
    rw [same, empty]
    exact ⟨rfl, rfl⟩
  | succ below =>
    have free : s.pool = ⟨s.freeList below :: ((List.range below).map s.freeList).reverse,
        s.blockOwner, s.gDoubleAlloc⟩ := by
      simp [pool, stack, top, List.range_succ]
    have positive : 0 < s.freeTop := by omega
    have last : s.freeTop - 1 = below := by omega
    rw [allocBlock, if_pos positive, last, free]
    refine ⟨?_, rfl⟩
    simp only [pool, stack, Allocator.Pool.take, Option.isSome_iff_ne_none]

/-- One round of the loop that frees. -/
theorem freeBlock_pool (s : Skel) (blk : Nat) :
    pool { s with
      blockOwner := Function.update s.blockOwner blk none
      freeList := Function.update s.freeList s.freeTop blk
      freeTop := s.freeTop + 1 } = s.pool.give blk := by
  have below : (List.range s.freeTop).map (Function.update s.freeList s.freeTop blk) =
      (List.range s.freeTop).map s.freeList := by
    apply List.map_congr_left
    intro k member
    exact Function.update_of_ne (Nat.ne_of_lt (List.mem_range.mp member)) ..
  simp [pool, stack, Allocator.Pool.give, List.range_succ, below]

variable {s : Skel} {held : Nat → List Nat} {items : List Nat}

theorem allocBlocks_exact (i rounds : Nat) (exact_ : s.pool.Exact items held) :
    (allocBlocks i rounds s).1.pool.Exact items
      (Function.update held i (held i ++ (allocBlocks i rounds s).2.filterMap id)) := by
  induction rounds generalizing s held with
  | zero =>
    rw [allocBlocks, List.filterMap_nil, List.append_nil, Function.update_eq_self]
    exact exact_
  | succ rounds ih =>
    have one := exact_.take i
    rw [← (allocBlock_pool s i).1, ← (allocBlock_pool s i).2] at one
    have rest := ih one
    rw [Function.update_self, Function.update_idem, List.append_assoc] at rest
    have front : (allocBlocks i (rounds + 1) s).2.filterMap id =
        (s.allocBlock i).2.toList ++ (allocBlocks i rounds (s.allocBlock i).1).2.filterMap id := by
      rw [allocBlocks]
      cases (s.allocBlock i).2 <;> rfl
    rw [front]
    exact rest

theorem freeBlocks_exact {i : Nat} {mine : List (Option Nat)} (exact_ : s.pool.Exact items held)
    (own : held i = mine.filterMap id) :
    (s.freeBlocks mine).pool.Exact items (Function.update held i []) := by
  induction mine generalizing s held with
  | nil =>
    rw [List.filterMap_nil] at own
    rw [freeBlocks, ← own, Function.update_eq_self]
    exact exact_
  | cons first rest ih =>
    cases first with
    | none => exact ih exact_ own
    | some blk =>
      have given := exact_.give (i := i) (a := blk) own
      rw [← freeBlock_pool] at given
      have later := ih given (Function.update_self ..)
      rw [Function.update_idem] at later
      exact later

/-- The loops only touch the allocator. -/
theorem allocBlocks_frame (i rounds : Nat) (s : Skel) :
    (allocBlocks i rounds s).1.q = s.q ∧ (allocBlocks i rounds s).1.handlers = s.handlers := by
  induction rounds generalizing s with
  | zero => exact ⟨rfl, rfl⟩
  | succ rounds ih =>
    have one : (s.allocBlock i).1.q = s.q ∧ (s.allocBlock i).1.handlers = s.handlers := by
      unfold allocBlock
      split <;> exact ⟨rfl, rfl⟩
    rw [← one.1, ← one.2]
    exact ih (s.allocBlock i).1

theorem freeBlocks_frame (mine : List (Option Nat)) (s : Skel) :
    (s.freeBlocks mine).q = s.q ∧ (s.freeBlocks mine).handlers = s.handlers := by
  induction mine generalizing s with
  | nil => exact ⟨rfl, rfl⟩
  | cons first rest ih =>
    cases first with
    | none => exact ih s
    | some blk => exact ih _

end Skel

end TransparentOffload.InferenceSkel
