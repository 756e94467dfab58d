import Mathlib.Algebra.Group.Int.Defs
import Mathlib.Algebra.Group.Nat.Defs

set_option autoImplicit false

/- A byte-addressed memory of 64-bit addresses that wrap around, its regions, and
little-endian words of eight bytes at any address. -/
namespace ByteMemory

abbrev Word := BitVec 64

abbrev Mem := Word → BitVec 8

/-- The `size` bytes from `lo` on. -/
structure Region where
  lo : Word
  size : Nat
  deriving DecidableEq, Repr

namespace Region

instance : Membership Word Region := ⟨fun r x => (x - r.lo).toNat < r.size⟩

theorem mem_iff {r : Region} {x : Word} : x ∈ r ↔ (x - r.lo).toNat < r.size := Iff.rfl

instance (r : Region) (x : Word) : Decidable (x ∈ r) :=
  inferInstanceAs (Decidable ((x - r.lo).toNat < r.size))

/-- No byte is in both regions. -/
def Apart (r r' : Region) : Prop :=
  r.size ≤ (r'.lo - r.lo).toNat ∧ r'.size ≤ (r.lo - r'.lo).toNat

instance (r r' : Region) : Decidable (r.Apart r') := inferInstanceAs (Decidable (_ ∧ _))

theorem Apart.symm {r r' : Region} (apart : r.Apart r') : r'.Apart r := ⟨apart.2, apart.1⟩

theorem Apart.not_mem {r r' : Region} (apart : r.Apart r') {x : Word} (inside : x ∈ r) :
    x ∉ r' := by
  obtain ⟨first, second⟩ := apart
  rw [mem_iff] at inside ⊢
  bv_omega

/-- The first region lies in the second. -/
def Sub (r r' : Region) : Prop := (r.lo - r'.lo).toNat + r.size ≤ r'.size

instance (r r' : Region) : Decidable (r.Sub r') := inferInstanceAs (Decidable (_ ≤ _))

theorem Sub.mem {r r' : Region} (sub : r.Sub r') {x : Word} (inside : x ∈ r) : x ∈ r' := by
  unfold Sub at sub
  rw [mem_iff] at inside ⊢
  bv_omega

end Region

/-- The eight bytes of the word at `a`. -/
abbrev wordAt (a : Word) : Region := ⟨a, 8⟩

/-- The number whose little-endian digits are the first `n` bytes from `a` on. -/
def readBytes (m : Mem) (a : Word) : Nat → Nat
  | 0 => 0
  | n + 1 => readBytes m a n + 256 ^ n * (m (a + BitVec.ofNat 64 n)).toNat

def readWord (m : Mem) (a : Word) : Word := BitVec.ofNat 64 (readBytes m a 8)

def writeWord (m : Mem) (a v : Word) : Mem := fun x =>
  if x ∈ wordAt a then BitVec.ofNat 8 (v.toNat / 256 ^ (x - a).toNat) else m x

/-- Every byte of the region is `b`. -/
def fill (m : Mem) (r : Region) (b : BitVec 8) : Mem := fun x => if x ∈ r then b else m x

theorem writeWord_outside (m : Mem) {a x : Word} (v : Word) (outside : x ∉ wordAt a) :
    writeWord m a v x = m x := if_neg outside

theorem fill_outside (m : Mem) {r : Region} {x : Word} (b : BitVec 8) (outside : x ∉ r) :
    fill m r b x = m x := if_neg outside

/-- Byte `i` of a word that has just been written. -/
theorem writeWord_byte (m : Mem) (a v : Word) {i : Nat} (inside : i < 8) :
    (writeWord m a v (a + BitVec.ofNat 64 i)).toNat = v.toNat / 256 ^ i % 256 := by
  have offset : (a + BitVec.ofNat 64 i - a).toNat = i := by bv_omega
  have member : a + BitVec.ofNat 64 i ∈ wordAt a := by
    rw [Region.mem_iff, offset]
    exact inside
  rw [writeWord, if_pos member, offset, BitVec.toNat_ofNat]

theorem readBytes_writeWord (m : Mem) (a v : Word) {n : Nat} (inside : n ≤ 8) :
    readBytes (writeWord m a v) a n = v.toNat % 256 ^ n := by
  induction n with
  | zero => rw [readBytes, Nat.pow_zero, Nat.mod_one]
  | succ n ih => rw [readBytes, ih (by omega), writeWord_byte m a v (by omega), Nat.mod_pow_succ]

@[simp] theorem readWord_writeWord (m : Mem) (a v : Word) : readWord (writeWord m a v) a = v := by
  apply BitVec.eq_of_toNat_eq
  rw [readWord, readBytes_writeWord m a v (Nat.le_refl 8), BitVec.toNat_ofNat]
  have bound := v.isLt
  omega

theorem readBytes_congr {m m' : Mem} {a : Word} {n : Nat} (inside : n ≤ 8)
    (same : ∀ x ∈ wordAt a, m x = m' x) : readBytes m a n = readBytes m' a n := by
  induction n with
  | zero => rfl
  | succ n ih =>
    have member : a + BitVec.ofNat 64 n ∈ wordAt a := by
      rw [Region.mem_iff]
      bv_omega
    rw [readBytes, readBytes, ih (by omega), same _ member]

/-- A word depends on its own eight bytes alone. -/
theorem readWord_congr {m m' : Mem} {a : Word} (same : ∀ x ∈ wordAt a, m x = m' x) :
    readWord m a = readWord m' a := by
  rw [readWord, readWord, readBytes_congr (Nat.le_refl 8) same]

theorem readWord_writeWord_apart (m : Mem) {a b : Word} (v : Word)
    (apart : (wordAt a).Apart (wordAt b)) : readWord (writeWord m b v) a = readWord m a :=
  readWord_congr fun _ inside => writeWord_outside m v (apart.not_mem inside)

/-- The words from `a` on are the ones of the list. -/
def Stored (m : Mem) (a : Word) : List Word → Prop
  | [] => True
  | w :: rest => readWord m a = w ∧ Stored m (a + 8) rest

@[simp] theorem stored_nil (m : Mem) (a : Word) : Stored m a [] := trivial

@[simp] theorem stored_cons {m : Mem} {a w : Word} {rest : List Word} :
    Stored m a (w :: rest) ↔ readWord m a = w ∧ Stored m (a + 8) rest := Iff.rfl

/-- Stored words depend on their own bytes alone. -/
theorem Stored.congr {m m' : Mem} {a : Word} {ws : List Word} {n : Nat}
    (inside : 8 * ws.length ≤ n) (bound : n < 2 ^ 64) (same : ∀ x, x ∈ Region.mk a n → m x = m' x)
    (stored : Stored m a ws) : Stored m' a ws := by
  induction ws generalizing a n with
  | nil => trivial
  | cons w rest ih =>
    obtain ⟨first, later⟩ := stored
    rw [List.length_cons] at inside
    constructor
    · rw [← first]
      apply readWord_congr
      intro x member
      symm
      apply same
      change (x - a).toNat < 8 at member
      change (x - a).toNat < n
      omega
    · apply ih (n := n - 8) (by omega) (by omega) _ later
      intro x member
      apply same
      change (x - (a + 8)).toNat < n - 8 at member
      change (x - a).toNat < n
      bv_omega

/-- A word pushed below stored words. -/
theorem Stored.push {m : Mem} {a : Word} {ws : List Word} (stored : Stored m a ws) (w : Word)
    (room : 8 * ws.length + 8 < 2 ^ 64) : Stored (writeWord m (a - 8) w) (a - 8) (w :: ws) := by
  refine ⟨readWord_writeWord m (a - 8) w, ?_⟩
  rw [BitVec.sub_add_cancel]
  apply stored.congr (Nat.le_refl _) (by omega)
  intro x member
  symm
  apply writeWord_outside
  intro pushed
  change (x - a).toNat < 8 * ws.length at member
  change (x - (a - 8)).toNat < 8 at pushed
  bv_omega

/-- Stores the words one after the other. -/
def storeWords (m : Mem) (a : Word) : List Word → Mem
  | [] => m
  | w :: rest => storeWords (writeWord m a w) (a + 8) rest

theorem storeWords_outside (m : Mem) {a x : Word} {ws : List Word} {n : Nat}
    (inside : 8 * ws.length ≤ n) (bound : n < 2 ^ 64) (outside : x ∉ Region.mk a n) :
    storeWords m a ws x = m x := by
  induction ws generalizing m a n with
  | nil => rfl
  | cons w rest ih =>
    rw [List.length_cons] at inside
    have later : x ∉ Region.mk (a + 8) (n - 8) := by
      intro member
      apply outside
      change (x - (a + 8)).toNat < n - 8 at member
      change (x - a).toNat < n
      bv_omega
    rw [storeWords, ih _ (by omega) (by omega) later]
    apply writeWord_outside
    intro member
    apply outside
    change (x - a).toNat < 8 at member
    change (x - a).toNat < n
    omega

theorem stored_storeWords (m : Mem) (a : Word) (ws : List Word) (room : 8 * ws.length < 2 ^ 64) :
    Stored (storeWords m a ws) a ws := by
  induction ws generalizing m a with
  | nil => trivial
  | cons w rest ih =>
    rw [List.length_cons] at room
    refine ⟨?_, ih _ _ (by omega)⟩
    have apart : ∀ x ∈ wordAt a, storeWords (writeWord m a w) (a + 8) rest x =
        writeWord m a w x := by
      intro x member
      apply storeWords_outside _ (Nat.le_refl _) (by omega)
      intro later
      change (x - a).toNat < 8 at member
      change (x - (a + 8)).toNat < 8 * rest.length at later
      bv_omega
    rw [storeWords, readWord_congr apart, readWord_writeWord]

/-- One of the stored words is written again. -/
theorem Stored.set {m : Mem} {a : Word} {ws : List Word} (stored : Stored m a ws) (w : Word)
    {i : Nat} (inside : i < ws.length) (room : 8 * ws.length < 2 ^ 64) :
    Stored (writeWord m (a + BitVec.ofNat 64 (8 * i)) w) a (ws.set i w) := by
  induction ws generalizing a i with
  | nil => simp at inside
  | cons v rest ih =>
    obtain ⟨first, later⟩ := stored
    rw [List.length_cons] at inside room
    cases i with
    | zero =>
      rw [Nat.mul_zero, BitVec.add_zero]
      refine ⟨readWord_writeWord m a w, ?_⟩
      apply later.congr (Nat.le_refl _) (by omega)
      intro x member
      symm
      apply writeWord_outside
      intro written
      change (x - (a + 8)).toNat < 8 * rest.length at member
      change (x - a).toNat < 8 at written
      bv_omega
    | succ i =>
      have next : a + BitVec.ofNat 64 (8 * (i + 1)) = a + 8 + BitVec.ofNat 64 (8 * i) := by
        bv_omega
      rw [next]
      refine ⟨?_, ih later (by omega) (by omega)⟩
      rw [readWord_writeWord_apart, first]
      constructor
      · change 8 ≤ (a + 8 + BitVec.ofNat 64 (8 * i) - a).toNat
        bv_omega
      · change 8 ≤ (a - (a + 8 + BitVec.ofNat 64 (8 * i))).toNat
        bv_omega

theorem readBytes_zero {m : Mem} {a : Word} {n : Nat} (inside : n ≤ 8)
    (zero : ∀ x ∈ wordAt a, m x = 0) : readBytes m a n = 0 := by
  induction n with
  | zero => rfl
  | succ n ih =>
    have member : a + BitVec.ofNat 64 n ∈ wordAt a := by
      rw [Region.mem_iff]
      bv_omega
    rw [readBytes, ih (by omega), zero _ member]
    rfl

/-- Zero bytes hold zero words. -/
theorem stored_zero {m : Mem} {a : Word} {k : Nat} (bound : 8 * k < 2 ^ 64)
    (zero : ∀ x ∈ Region.mk a (8 * k), m x = 0) : Stored m a (List.replicate k 0) := by
  induction k generalizing a with
  | zero => trivial
  | succ k ih =>
    rw [List.replicate_succ]
    constructor
    · have first : ∀ x ∈ wordAt a, m x = 0 := by
        intro x member
        apply zero
        change (x - a).toNat < 8 at member
        change (x - a).toNat < 8 * (k + 1)
        omega
      rw [readWord, readBytes_zero (Nat.le_refl 8) first]
      rfl
    · apply ih (by omega)
      intro x member
      apply zero
      change (x - (a + 8)).toNat < 8 * k at member
      change (x - a).toNat < 8 * (k + 1)
      bv_omega

/-- Clearing the low bits rounds down to a multiple of a power of two. -/
theorem toNat_and_not (x : Word) {k : Nat} (small : k < 64) :
    (x &&& ~~~BitVec.ofNat 64 (2 ^ k - 1)).toNat = x.toNat - x.toNat % 2 ^ k := by
  have bound : 2 ^ k < 2 ^ 64 := Nat.pow_lt_pow_right (by omega) small
  have low : (x &&& BitVec.ofNat 64 (2 ^ k - 1)).toNat = x.toNat % 2 ^ k := by
    rw [BitVec.toNat_and, BitVec.toNat_ofNat, Nat.mod_eq_of_lt (by omega),
      Nat.and_two_pow_sub_one_eq_mod]
  have apart : (x &&& ~~~BitVec.ofNat 64 (2 ^ k - 1)) &&& (x &&& BitVec.ofNat 64 (2 ^ k - 1)) =
      0#64 := by
    ext i inside
    simp only [BitVec.getElem_and, BitVec.getElem_not, BitVec.getElem_zero]
    cases x[i] <;> cases (BitVec.ofNat 64 (2 ^ k - 1))[i] <;> rfl
  have split : (x &&& ~~~BitVec.ofNat 64 (2 ^ k - 1)) + (x &&& BitVec.ofNat 64 (2 ^ k - 1)) =
      x := by
    rw [BitVec.add_eq_or_of_and_eq_zero _ _ apart]
    ext i inside
    simp only [BitVec.getElem_or, BitVec.getElem_and, BitVec.getElem_not]
    cases x[i] <;> cases (BitVec.ofNat 64 (2 ^ k - 1))[i] <;> rfl
  have sum := BitVec.toNat_add_of_and_eq_zero apart
  rw [split, low] at sum
  omega

end ByteMemory
