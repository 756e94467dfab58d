import TransparentOffload.BatchFusion
import TransparentOffload.Lib.Threads
import Mathlib.Data.Fintype.Prod

set_option autoImplicit false

/- The launch of `aes_ctr` thread by thread. The device runs the threads in any order
and may change from one to another between any two accesses to `data`. -/
namespace TransparentOffload.CtrLaunch

open Aes

/-- The arguments of a launch, and the round keys in `d_rk`. `data` is where the buffer
starts in the memory of the device. -/
structure Launch where
  rk : Bytes
  data : Nat
  nb : UInt64
  base : UInt64

/-- The number of groups, `(unsigned)((nb+255)/256)`. -/
def gridDim (nb : UInt64) : UInt32 := ((nb + 255) / 256).toUInt32

/-- A thread of the launch, by `blockIdx.x` and `threadIdx.x`. -/
abbrev Thread (k : Launch) := Fin (gridDim k.nb).toNat × Fin 256

/-- `idx`. -/
def idx {k : Launch} (t : Thread k) : UInt64 := UInt64.ofNat t.1 * 256 + UInt64.ofNat t.2

/-- The two loops that fill `ctr`. -/
def counter (ctr : Bytes) (c : UInt64) : Bytes :=
  let ctr := (List.range 8).foldl (fun ctr i => ctr.set i 0) ctr
  (List.range 8).foldl (fun ctr i => ctr.set (15 - i) (c >>> UInt64.ofNat (8 * i)).toUInt8) ctr

/-- Where a thread is: before its first statement, in the loop over the bytes of its
block before the load or before the store of `d[i]^=ctr[i]`, or returned. -/
inductive Pc where
  | entry
  | load (i : Nat) (ctr : Bytes)
  | store (i : Fin 16) (ctr : Bytes) (b : UInt8)
  | exit

/-- The address of `d[i]`. -/
def cell {k : Launch} (t : Thread k) (i : Nat) : Nat := k.data + (idx t * 16).toNat + i

/-- `aes_ctr`, as one thread runs it. What `ctr` holds at first does not matter. -/
def body (k : Launch) (t : Thread k) : (Nat → UInt8) × Pc → Option ((Nat → UInt8) × Pc)
  | (mem, .entry) =>
    if idx t ≥ k.nb then some (mem, .exit)
    else
      let ctr := counter (List.replicate 16 0) (k.base + idx t)
      some (mem, .load 0 (aesEncryptBlock k.rk ctr))
  | (mem, .load i ctr) =>
    if inside : i < 16 then some (mem, .store ⟨i, inside⟩ ctr (mem (cell t i)))
    else some (mem, .exit)
  | (mem, .store i ctr b) =>
    some (Function.update mem (cell t i) (b ^^^ ctr.getD i 0), .load (i + 1) ctr)
  | (_, .exit) => none

/-- The threads of a launch when none of them has started. -/
def start (k : Launch) (mem : Nat → UInt8) : (Nat → UInt8) × (Thread k → Pc) :=
  (mem, fun _ => .entry)

/-- One thread of the launch goes on to its next access. -/
abbrev step (k : Launch) := Threads.step (body k)

/-- An order of the threads takes the memory from one content to another, and all of them
return. -/
def Runs (k : Launch) (mem after : Nat → UInt8) : Prop :=
  ∃ acts s, Machine.run (step k) (start k mem) acts = some s ∧ Threads.Finished (body k) s ∧
    s.1 = after

/-- The limit on the number of groups, in exact arithmetic. -/
def WithinGrid (nb : UInt64) : Prop := (nb.toNat + 255) / 256 ≤ 2 ^ 31 - 1

instance (nb : UInt64) : Decidable (WithinGrid nb) := inferInstanceAs (Decidable (_ ≤ _))

section

variable {k : Launch}

/-- The sixteen bytes of a thread. -/
def own (t : Thread k) : Set Nat := { a | cell t 0 ≤ a ∧ a < cell t 16 }

theorem gridDim_toNat {nb : UInt64} (grid : WithinGrid nb) :
    (gridDim nb).toNat = (nb.toNat + 255) / 256 := by
  unfold WithinGrid at grid
  have sum : (nb + 255).toNat = nb.toNat + 255 := by
    rw [UInt64.toNat_add]
    show (nb.toNat + 255) % 2 ^ 64 = _
    omega
  have quotient : ((nb + 255) / 256).toNat = (nb.toNat + 255) / 256 := by
    rw [UInt64.toNat_div, sum]
    rfl
  rw [gridDim, UInt64.toNat_toUInt32, quotient]
  omega

/-- Every group has an index below `2 ^ 32`, so `idx` is exact. -/
theorem idx_toNat (t : Thread k) : (idx t).toNat = t.1 * 256 + t.2 := by
  have group : (t.1 : Nat) < 2 ^ 32 := Nat.lt_trans t.1.isLt (gridDim k.nb).toNat_lt
  have lane : (t.2 : Nat) < 256 := t.2.isLt
  have exact_ : ∀ n, n < 2 ^ 32 → (UInt64.ofNat n).toNat = n := by
    intro n small
    apply UInt64.toNat_ofNat_of_lt'
    show n < 2 ^ 64
    omega
  have first := exact_ t.1 group
  have second := exact_ t.2 (by omega)
  rw [idx, UInt64.toNat_add, UInt64.toNat_mul, first, second]
  show ((t.1 : Nat) * 256 % 2 ^ 64 + t.2) % 2 ^ 64 = _
  omega

theorem cell_eq (t : Thread k) (i : Nat) : cell t i = k.data + 16 * (idx t).toNat + i := by
  have place := idx_toNat t
  have group : (t.1 : Nat) < 2 ^ 32 := Nat.lt_trans t.1.isLt (gridDim k.nb).toNat_lt
  have lane : (t.2 : Nat) < 256 := t.2.isLt
  rw [cell, UInt64.toNat_mul]
  show k.data + (idx t).toNat * 16 % 2 ^ 64 + i = _
  omega

/-- Two threads have two indices. -/
theorem idx_injective {t u : Thread k} (same : (idx t).toNat = (idx u).toNat) : t = u := by
  rw [idx_toNat, idx_toNat] at same
  have lane : (t.2 : Nat) < 256 := t.2.isLt
  have lane' : (u.2 : Nat) < 256 := u.2.isLt
  apply Prod.ext
  · apply Fin.ext
    omega
  · apply Fin.ext
    omega

theorem mem_own (t : Thread k) (a : Nat) :
    a ∈ own t ↔ k.data ≤ a ∧ (a - k.data) / 16 = (idx t).toNat := by
  show cell t 0 ≤ a ∧ a < cell t 16 ↔ _
  rw [cell_eq, cell_eq]
  omega

/-- The rounded-up grid has a thread for every block. -/
theorem exists_thread (grid : WithinGrid k.nb) {b : Nat} (block : b < k.nb.toNat) :
    ∃ t : Thread k, (idx t).toNat = b := by
  have group : b / 256 < (gridDim k.nb).toNat := by
    rw [gridDim_toNat grid]
    omega
  refine ⟨(⟨b / 256, group⟩, ⟨b % 256, Nat.mod_lt b (by decide)⟩), ?_⟩
  rw [idx_toNat]
  show b / 256 * 256 + b % 256 = b
  omega

/-- What the loops leave in `ctr` is the counter block, whatever was there before. -/
theorem counter_eq {ctr : Bytes} (sixteen : ctr.length = 16) (c : UInt64) :
    counter ctr c = counterBlock c.toNat := by
  obtain ⟨a0, a1, a2, a3, b0, b1, b2, b3, c0, c1, c2, c3, d0, d1, d2, d3, rfl⟩ :=
    exists_bytes sixteen
  have eight : List.range 8 = [0, 1, 2, 3, 4, 5, 6, 7] := rfl
  have low (i : Nat) (few : i < 8) :
      (c >>> UInt64.ofNat (8 * i)).toUInt8 = UInt8.ofNat (c.toNat >>> (8 * i)) := by
    apply UInt8.toNat_inj.mp
    have amount : (UInt64.ofNat (8 * i)).toNat = 8 * i := by
      apply UInt64.toNat_ofNat_of_lt'
      show 8 * i < 2 ^ 64
      omega
    have short : 8 * i % 64 = 8 * i := Nat.mod_eq_of_lt (by omega)
    rw [UInt64.toNat_toUInt8, UInt64.toNat_shiftRight, amount, short, UInt8.toNat_ofNat']
  unfold counter
  dsimp only
  rw [List.foldl_ext _ fun ctr i => ctr.set (15 - i) (UInt8.ofNat (c.toNat >>> (8 * i)))]
  · simp [counterBlock, eight, List.replicate]
  · intro ctr i member
    rw [low i (List.mem_range.mp member)]

/-- The block a thread masks its bytes with. -/
def mask (k : Launch) (b : Nat) : Bytes := aesEnc k.rk (counterBlock (k.base.toNat + b))

theorem encrypted (whole : k.rk.length = 176) (counts : k.base.toNat + k.nb.toNat ≤ 2 ^ 64)
    {t : Thread k} (inside : (idx t).toNat < k.nb.toNat) :
    aesEncryptBlock k.rk (counter (List.replicate 16 0) (k.base + idx t)) =
      mask k (idx t).toNat := by
  have sum : (k.base + idx t).toNat = k.base.toNat + (idx t).toNat := by
    rw [UInt64.toNat_add]
    exact Nat.mod_eq_of_lt (by omega)
  have sixteen : (counterBlock (k.base.toNat + (idx t).toNat)).length = 16 := by
    simp [counterBlock]
  rw [counter_eq List.length_replicate, sum, aesEncryptBlock_eq whole sixteen, mask]

/-- No thread touches the bytes of another. -/
theorem separate (k : Launch) : Threads.Separate own (body k) := by
  have mine : ∀ (t : Thread k) (i : Nat), i < 16 → cell t i ∈ own t := by
    intro t i small
    show cell t 0 ≤ cell t i ∧ cell t i < cell t 16
    simp only [cell]
    omega
  constructor
  · intro t u a different inFirst inSecond
    have left := ((mem_own t a).mp inFirst).2
    have right := ((mem_own u a).mp inSecond).2
    exact different (idx_injective (left.symm.trans right))
  · intro t m pc n pc' stepped a outside
    cases pc with
    | entry =>
      simp only [body] at stepped
      split at stepped <;> cases stepped <;> rfl
    | load i ctr =>
      simp only [body] at stepped
      split at stepped <;> cases stepped <;> rfl
    | store i ctr b =>
      cases stepped
      apply Function.update_of_ne
      intro same
      rw [same] at outside
      exact outside (mine t i i.isLt)
    | exit => cases stepped
  · intro t m pc n pc' other stepped agree
    cases pc with
    | entry =>
      simp only [body] at stepped ⊢
      split at stepped
      all_goals
        rename_i reached
        cases stepped
        simp only [reached]
        exact ⟨other, rfl, agree⟩
    | load i ctr =>
      simp only [body] at stepped ⊢
      split at stepped
      · rename_i small
        cases stepped
        rw [dif_pos small, ← agree _ (mine t i small)]
        exact ⟨other, rfl, agree⟩
      · rename_i last
        cases stepped
        rw [dif_neg last]
        exact ⟨other, rfl, agree⟩
    | store i ctr b =>
      cases stepped
      refine ⟨_, rfl, ?_⟩
      intro a inside
      by_cases same : a = cell t i
      · rw [same, Function.update_self, Function.update_self]
      · rw [Function.update_of_ne same, Function.update_of_ne same]
        exact agree a inside
    | exit => cases stepped

/-- The accesses and returns a thread has before it. -/
def left : Pc → Nat
  | .entry => 35
  | .load i _ => 2 * (16 - i) + 1
  | .store i _ _ => 2 * (16 - i)
  | .exit => 0

theorem body_left {t : Thread k} {m n : Nat → UInt8} {pc pc' : Pc}
    (stepped : body k t (m, pc) = some (n, pc')) : left pc' < left pc := by
  cases pc with
  | entry =>
    simp only [body] at stepped
    split at stepped <;> cases stepped <;> simp [left]
  | load i ctr =>
    simp only [body] at stepped
    split at stepped <;> cases stepped <;> simp [left]
  | store i ctr b =>
    have small := i.isLt
    cases stepped
    simp only [left]
    omega
  | exit => cases stepped

/-- The memory after the first `i` rounds of the last loop of a thread. -/
def masked (mem : Nat → UInt8) (t : Thread k) (i : Nat) : Nat → UInt8 := fun a =>
  if cell t 0 ≤ a ∧ a < cell t i then mem a ^^^ (mask k (idx t).toNat).getD (a - cell t 0) 0
  else mem a

theorem masked_zero (mem : Nat → UInt8) (t : Thread k) : masked mem t 0 = mem := by
  funext a
  apply if_neg
  omega

theorem masked_succ (mem : Nat → UInt8) (t : Thread k) (i : Nat) :
    Function.update (masked mem t i) (cell t i)
      (mem (cell t i) ^^^ (mask k (idx t).toNat).getD i 0) = masked mem t (i + 1) := by
  have next : cell t (i + 1) = cell t i + 1 := rfl
  have low : cell t 0 + i = cell t i := rfl
  funext a
  by_cases same : a = cell t i
  · have here : cell t 0 ≤ a ∧ a < cell t (i + 1) := by omega
    have offset : a - cell t 0 = i := by omega
    rw [masked, if_pos here, offset, same, Function.update_self]
  · rw [Function.update_of_ne same, masked, masked]
    by_cases before : cell t 0 ≤ a ∧ a < cell t i
    · rw [if_pos before, if_pos (by omega)]
    · rw [if_neg before, if_neg (by omega)]

/-- How far a thread that runs alone has come. -/
def Alone (mem : Nat → UInt8) (t : Thread k) : (Nat → UInt8) × Pc → Prop
  | (m, .entry) => m = mem
  | (m, .load i ctr) => (idx t).toNat < k.nb.toNat ∧ ctr = mask k (idx t).toNat ∧ i ≤ 16 ∧
      m = masked mem t i
  | (m, .store i ctr b) => (idx t).toNat < k.nb.toNat ∧ ctr = mask k (idx t).toNat ∧
      b = mem (cell t i) ∧ m = masked mem t i
  | (m, .exit) => m = if (idx t).toNat < k.nb.toNat then masked mem t 16 else mem

theorem Alone.body (whole : k.rk.length = 176) (counts : k.base.toNat + k.nb.toNat ≤ 2 ^ 64)
    {mem : Nat → UInt8} {t : Thread k} {s s' : (Nat → UInt8) × Pc} (alone : Alone mem t s)
    (stepped : body k t s = some s') : Alone mem t s' := by
  obtain ⟨m, pc⟩ := s
  cases pc with
  | entry =>
    simp only [CtrLaunch.body, ge_iff_le, UInt64.le_iff_toNat_le] at stepped
    split at stepped
    · rename_i surplus
      cases stepped
      show m = _
      rw [if_neg (by omega)]
      exact alone
    · rename_i reached
      have inside : (idx t).toNat < k.nb.toNat := by omega
      cases stepped
      refine ⟨inside, encrypted whole counts inside, Nat.zero_le 16, ?_⟩
      rw [masked_zero]
      exact alone
  | load i ctr =>
    obtain ⟨inside, block, few, content⟩ := alone
    simp only [CtrLaunch.body] at stepped
    split at stepped
    · cases stepped
      refine ⟨inside, block, ?_, content⟩
      rw [content]
      apply if_neg
      show ¬ (_ ∧ cell t i < cell t i)
      omega
    · have last : i = 16 := by omega
      cases stepped
      show m = _
      rw [if_pos inside, content, last]
  | store i ctr b =>
    obtain ⟨inside, block, value, content⟩ := alone
    have small := i.isLt
    cases stepped
    refine ⟨inside, block, by omega, ?_⟩
    rw [content, value, block]
    exact masked_succ mem t i
  | exit => cases stepped

/-- A thread that has no step left has returned. -/
theorem returned {t : Thread k} {m : Nat → UInt8} {pc : Pc} (ended : body k t (m, pc) = none) :
    pc = .exit := by
  cases pc with
  | entry =>
    simp only [body] at ended
    split at ended <;> cases ended
  | load i ctr =>
    simp only [body] at ended
    split at ended <;> cases ended
  | store i ctr b => cases ended
  | exit => rfl

/-- What a thread leaves in its own bytes, whatever the others do. -/
theorem own_bytes (whole : k.rk.length = 176) (counts : k.base.toNat + k.nb.toNat ≤ 2 ^ 64)
    {mem : Nat → UInt8} {acts : List (Thread k)} {s : (Nat → UInt8) × (Thread k → Pc)}
    (reached : Machine.run (step k) (start k mem) acts = some s)
    (finished : Threads.Finished (body k) s) {t : Thread k} {a : Nat} (mine : a ∈ own t) :
    s.1 a = if (idx t).toNat < k.nb.toNat then masked mem t 16 a else mem a := by
  obtain ⟨after, ran, agreed⟩ := Threads.run_alone (separate k) t reached (fun _ _ => rfl)
  have fresh : Alone mem t (mem, Pc.entry) := rfl
  have alone : Alone mem t (after, s.2 t) :=
    Machine.invariant_reached (fun _ _ _ held stepped => held.body whole counts stepped) fresh ran
  rw [returned (finished t)] at alone
  have final : after = if (idx t).toNat < k.nb.toNat then masked mem t 16 else mem := alone
  rw [← agreed a mine, final]
  split <;> rfl

/-- Every order of the threads computes what the cipher in counter mode does. -/
theorem memory_eq (whole : k.rk.length = 176) (counts : k.base.toNat + k.nb.toNat ≤ 2 ^ 64)
    (grid : WithinGrid k.nb) {mem : Nat → UInt8} {acts : List (Thread k)}
    {s : (Nat → UInt8) × (Thread k → Pc)}
    (reached : Machine.run (step k) (start k mem) acts = some s)
    (finished : Threads.Finished (body k) s) :
    s.1 = BatchDemo.aesCtr k.rk mem k.data k.nb.toNat k.base.toNat := by
  funext a
  rw [BatchDemo.aesCtr]
  by_cases inside : k.data ≤ a ∧ (a - k.data) / 16 < k.nb.toNat
  · obtain ⟨t, index⟩ := exists_thread grid inside.2
    have mine : a ∈ own t := (mem_own t a).mpr ⟨inside.1, index.symm⟩
    have offset : a - cell t 0 = (a - k.data) % 16 := by
      rw [cell_eq]
      omega
    have bounds : cell t 0 ≤ a ∧ a < cell t 16 := mine
    rw [if_pos inside, own_bytes whole counts reached finished mine, if_pos (by omega), masked,
      if_pos bounds, offset, index, mask, keystream]
  · rw [if_neg inside]
    by_cases owned : ∃ t : Thread k, a ∈ own t
    · obtain ⟨t, mine⟩ := owned
      have block := (mem_own t a).mp mine
      rw [own_bytes whole counts reached finished mine, if_neg (by omega)]
    · exact Threads.run_outside (separate k) reached (not_exists.mp owned)

/-- Any order can be carried on until all threads have returned. -/
theorem exists_finished (s : (Nat → UInt8) × (Thread k → Pc)) :
    ∃ acts s', Machine.run (step k) s acts = some s' ∧ Threads.Finished (body k) s' :=
  Threads.exists_finished (fun _ => left) (fun _ _ _ _ _ => body_left) s

theorem runs_iff (whole : k.rk.length = 176) (counts : k.base.toNat + k.nb.toNat ≤ 2 ^ 64)
    (grid : WithinGrid k.nb) {mem after : Nat → UInt8} :
    Runs k mem after ↔ after = BatchDemo.aesCtr k.rk mem k.data k.nb.toNat k.base.toNat := by
  constructor
  · intro ⟨acts, s, reached, finished, result⟩
    rw [← result]
    exact memory_eq whole counts grid reached finished
  · intro result
    obtain ⟨acts, s, reached, finished⟩ := exists_finished (start k mem)
    refine ⟨acts, s, reached, finished, ?_⟩
    rw [result]
    exact memory_eq whole counts grid reached finished

end

section

variable (rk : Bytes) (mem : Nat → UInt8) (data : Nat)

/-- The same key stream twice leaves the data as it was. -/
theorem aesCtr_twice (nb base : Nat) :
    BatchDemo.aesCtr rk (BatchDemo.aesCtr rk mem data nb base) data nb base = mem := by
  funext a
  simp only [BatchDemo.aesCtr]
  split
  · rw [UInt8.xor_assoc, UInt8.xor_self, UInt8.xor_zero]
  · rfl

theorem aesCtr_zero (base : Nat) : BatchDemo.aesCtr rk mem data 0 base = mem := by
  funext a
  apply if_neg
  omega

/-- The front of the blocks and then the rest, with the counter carried on. -/
theorem aesCtr_split {m nb : Nat} (within : m ≤ nb) (base : Nat) :
    BatchDemo.aesCtr rk (BatchDemo.aesCtr rk mem data m base) (data + 16 * m) (nb - m) (base + m) =
      BatchDemo.aesCtr rk mem data nb base := by
  funext a
  simp only [BatchDemo.aesCtr]
  by_cases front : data ≤ a ∧ (a - data) / 16 < m
  · have whole : data ≤ a ∧ (a - data) / 16 < nb := by omega
    have outside : ¬ (data + 16 * m ≤ a ∧ (a - (data + 16 * m)) / 16 < nb - m) := by omega
    rw [if_pos front, if_pos whole, if_neg outside]
  · rw [if_neg front]
    by_cases whole : data ≤ a ∧ (a - data) / 16 < nb
    · have back : data + 16 * m ≤ a ∧ (a - (data + 16 * m)) / 16 < nb - m := by omega
      have block : base + m + (a - (data + 16 * m)) / 16 = base + (a - data) / 16 := by omega
      have offset : (a - (data + 16 * m)) % 16 = (a - data) % 16 := by omega
      rw [if_pos back, if_pos whole, keystream, keystream, block, offset]
    · have outside : ¬ (data + 16 * m ≤ a ∧ (a - (data + 16 * m)) / 16 < nb - m) := by omega
      rw [if_neg whole, if_neg outside]

end

/-- The blocks from `m` on, with the counter of the block `m`. -/
def Launch.rest (k : Launch) (m : UInt64) : Launch :=
  { k with data := k.data + 16 * m.toNat, nb := k.nb - m, base := k.base + m }

theorem runs_split {k : Launch} (whole : k.rk.length = 176) (grid : WithinGrid k.nb)
    (counts : k.base.toNat + k.nb.toNat ≤ 2 ^ 64) {m : UInt64} (within : m ≤ k.nb)
    {mem front both : Nat → UInt8} (first : Runs { k with nb := m } mem front)
    (second : Runs (k.rest m) front both) : Runs k mem both := by
  have few : m.toNat ≤ k.nb.toNat := UInt64.le_iff_toNat_le.mp within
  have count : (k.rest m).nb.toNat = k.nb.toNat - m.toNat := UInt64.toNat_sub_of_le _ _ within
  have value : (k.rest m).base.toNat = (k.base.toNat + m.toNat) % 2 ^ 64 := UInt64.toNat_add ..
  unfold WithinGrid at grid
  have frontGrid : WithinGrid m := by
    unfold WithinGrid
    omega
  have restGrid : WithinGrid (k.rest m).nb := by
    unfold WithinGrid
    omega
  have frontCounts : k.base.toNat + m.toNat ≤ 2 ^ 64 := by omega
  have restCounts : (k.rest m).base.toNat + (k.rest m).nb.toNat ≤ 2 ^ 64 := by omega
  have one := (runs_iff (k := { k with nb := m }) whole frontCounts frontGrid).mp first
  have two := (runs_iff (k := k.rest m) whole restCounts restGrid).mp second
  apply (runs_iff whole counts grid).mpr
  rw [two, one, count, value]
  -- The counter of an empty rest may have gone round to zero.
  by_cases all : m.toNat = k.nb.toNat
  · rw [all, Nat.sub_self, aesCtr_zero]
  · rw [Nat.mod_eq_of_lt (by omega)]
    exact aesCtr_split k.rk mem k.data few k.base.toNat

/-- The launch is the cipher in counter mode, in any order of its threads: what it leaves
does not depend on the order, a second launch takes it back, and two launches over the two
parts of the blocks do the same. -/
theorem launch_eq_sequential (k : Launch) (whole : k.rk.length = 176) (grid : WithinGrid k.nb)
    (counts : k.base.toNat + k.nb.toNat ≤ 2 ^ 64) :
    (∀ mem acts s, Machine.run (step k) (start k mem) acts = some s →
      ∃ more s', Machine.run (step k) (start k mem) (acts ++ more) = some s' ∧
        Threads.Finished (body k) s') ∧
    (∀ mem after, Runs k mem after ↔ after = fun a =>
      if k.data ≤ a ∧ a < k.data + 16 * k.nb.toNat then
        mem a ^^^ (aesEnc k.rk (counterBlock (k.base.toNat + (a - k.data) / 16))).getD
          ((a - k.data) % 16) 0
      else mem a) ∧
    (∀ mem once twice, Runs k mem once → Runs k once twice → twice = mem) ∧
    ∀ m ≤ k.nb, ∀ mem front both, Runs { k with nb := m } mem front →
      Runs (k.rest m) front both →
      Runs k mem both := by
  refine ⟨?_, ?_, ?_, ?_⟩
  · intro mem acts s reached
    obtain ⟨more, s', rest, finished⟩ := exists_finished s
    exact ⟨more, s', by rw [Machine.run_append_of_run reached, rest], finished⟩
  · intro mem after
    have explicit : BatchDemo.aesCtr k.rk mem k.data k.nb.toNat k.base.toNat = fun a =>
        if k.data ≤ a ∧ a < k.data + 16 * k.nb.toNat then
          mem a ^^^ (aesEnc k.rk (counterBlock (k.base.toNat + (a - k.data) / 16))).getD
            ((a - k.data) % 16) 0
        else mem a := by
      funext a
      have bounds : k.data ≤ a ∧ (a - k.data) / 16 < k.nb.toNat ↔
          k.data ≤ a ∧ a < k.data + 16 * k.nb.toNat := by omega
      rw [BatchDemo.aesCtr, keystream]
      exact if_congr bounds rfl rfl
    rw [← explicit]
    exact runs_iff whole counts grid
  · intro mem once twice first second
    rw [(runs_iff whole counts grid).mp second, (runs_iff whole counts grid).mp first]
    exact aesCtr_twice ..
  · intro m within mem front both first second
    exact runs_split whole grid counts within first second

/-- Two groups for 300 blocks, the last of which takes the last counter. -/
def twoGroups : Launch := ⟨keyExpand BatchDemo.key, 4096, 300, 0xfffffffffffffed4⟩

theorem launch_eq_sequential_twoGroups :
    (gridDim twoGroups.nb).toNat = 2 ∧
      (∃ after, Runs twoGroups (fun _ => 0) after ∧ after 4095 = 0 ∧
        after 4097 = (aesEnc twoGroups.rk (counterBlock 0xfffffffffffffed4)).getD 1 0) ∧
      ∀ mem once twice, Runs twoGroups mem once → Runs twoGroups once twice → twice = mem := by
  have launch := launch_eq_sequential twoGroups rfl (by decide) (by decide)
  refine ⟨by decide, ⟨_, (launch.2.1 _ _).mpr rfl, ?_, ?_⟩, launch.2.2.1⟩
  · exact if_neg (by decide)
  · rw [if_pos (by decide), UInt8.zero_xor]
    rfl

end TransparentOffload.CtrLaunch
