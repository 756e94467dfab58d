import Mathlib.Algebra.Group.Int.Defs
import Mathlib.Algebra.Group.Nat.Defs

set_option autoImplicit false

/- The field of 256 elements with the polynomial x^8 + x^4 + x^3 + x + 1. The bits of a
byte are the coefficients of an element, and `^^^` is its addition. -/
namespace Gf256

/-- Multiplication by x: a coefficient that leaves the byte comes back as the rest of
the polynomial. -/
def xtime (b : UInt8) : UInt8 := (b <<< 1) ^^^ (if b.toNat.testBit 7 then 0x1b else 0)

/-- The product of `b` and the polynomial of the `n` highest coefficients of `a`. -/
def mulTop (a b : UInt8) : Nat → UInt8
  | 0 => 0
  | n + 1 => xtime (mulTop a b n) ^^^ (if a.toNat.testBit (7 - n) then b else 0)

def mul (a b : UInt8) : UInt8 := mulTop a b 8

/-- All elements. -/
def elements : List UInt8 := (List.range 256).map UInt8.ofNat

/-- The inverse of an element, and 0 where there is none. -/
def inv (a : UInt8) : UInt8 := (elements.find? fun b => mul a b = 1).getD 0

theorem mem_elements (b : UInt8) : b ∈ elements :=
  List.mem_map.mpr ⟨b.toNat, List.mem_range.mpr b.toNat_lt, UInt8.ofNat_toNat⟩

/-- The sum of two choices between an element and 0. -/
theorem ite_xor (p q : Bool) (b : UInt8) :
    (if p ^^ q then b else 0) = (if p then b else 0) ^^^ (if q then b else 0) := by
  cases p <;> cases q <;> simp

theorem ite_xor_ite (p : Bool) (b c : UInt8) :
    (if p then b ^^^ c else 0) = (if p then b else 0) ^^^ (if p then c else 0) := by
  cases p <;> simp

/-- A sum of four, summed the other way. -/
theorem xor_xor_comm (a b c d : UInt8) : (a ^^^ b) ^^^ (c ^^^ d) = (a ^^^ c) ^^^ (b ^^^ d) := by
  ac_rfl

theorem xtime_xor (b c : UInt8) : xtime (b ^^^ c) = xtime b ^^^ xtime c := by
  unfold xtime
  rw [UInt8.toNat_xor, Nat.testBit_xor, ite_xor, UInt8.shiftLeft_xor, xor_xor_comm]

@[simp] theorem xtime_zero : xtime 0 = 0 := by decide

theorem mul_xor (a b c : UInt8) : mul a (b ^^^ c) = mul a b ^^^ mul a c := by
  unfold mul
  induction 8 with
  | zero => simp [mulTop]
  | succ n ih => rw [mulTop, mulTop, mulTop, ih, xtime_xor, ite_xor_ite, xor_xor_comm]

@[simp] theorem mul_zero (a : UInt8) : mul a 0 = 0 := by
  have double := mul_xor a 0 0
  rwa [UInt8.xor_self, UInt8.xor_self] at double

theorem mul_xtime (a b : UInt8) : mul a (xtime b) = xtime (mul a b) := by
  unfold mul
  induction 8 with
  | zero => simp [mulTop]
  | succ n ih =>
    rw [mulTop, mulTop, ih, xtime_xor]
    congr 1
    split
    · rfl
    · rw [xtime_zero]

/-- Multiplications by two elements can change places: each is additive and commutes
with multiplication by x, of which the other one is made. -/
theorem mul_left_comm (a b c : UInt8) : mul a (mul b c) = mul b (mul a c) := by
  change mul a (mulTop b c 8) = mulTop b (mul a c) 8
  induction 8 with
  | zero => exact mul_zero a
  | succ n ih =>
    rw [mulTop, mulTop, mul_xor, mul_xtime, ih]
    congr 1
    split
    · rfl
    · exact mul_zero a

theorem mul_one (a : UInt8) : mul a 1 = a := by
  have all : ∀ n < 256, mul (UInt8.ofNat n) 1 = UInt8.ofNat n := by decide +kernel
  simpa using all a.toNat a.toNat_lt

theorem mul_comm (a b : UInt8) : mul a b = mul b a := by
  have swapped := mul_left_comm a b 1
  rwa [mul_one, mul_one] at swapped

/-- An element has one inverse. -/
theorem inv_eq {a b : UInt8} (inverse : mul a b = 1) : inv a = b := by
  have found : (elements.find? fun b => mul a b = 1).isSome := by
    rw [List.find?_isSome]
    exact ⟨b, mem_elements b, by simpa using inverse⟩
  obtain ⟨c, first⟩ := Option.isSome_iff_exists.mp found
  have other : mul a c = 1 := by simpa using List.find?_some first
  rw [inv, first, Option.getD_some]
  calc
    c = mul c (mul a b) := by rw [inverse, mul_one]
    _ = mul b (mul a c) := by rw [mul_left_comm, mul_comm c b, mul_left_comm]
    _ = b := by rw [other, mul_one]

@[simp] theorem inv_zero : inv 0 = 0 := by
  have none_ : elements.find? (fun b => mul 0 b = 1) = none := by
    rw [List.find?_eq_none]
    intro b _
    rw [mul_comm, mul_zero]
    decide
  rw [inv, none_, Option.getD_none]

end Gf256
