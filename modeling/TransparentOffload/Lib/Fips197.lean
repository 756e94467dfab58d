import TransparentOffload.Lib.Gf256

set_option autoImplicit false

/- AES-128 as its standard defines it. A state is a square of bytes; byte `i` of a block
stands in row `i % 4` of column `i / 4`. Rows and columns are counted modulo 4. -/
namespace Fips197

open Gf256

/-- The byte in a row and a column. -/
abbrev State := Fin 4 → Fin 4 → UInt8

/-- A word of the key schedule, which is a column of a round key. -/
abbrev Word := Fin 4 → UInt8

/-- Bit `i` of the affine map: the sum of the bits `i`, `i + 4`, `i + 5`, `i + 6` and
`i + 7` of the byte, counted modulo 8, and of bit `i` of 0x63. -/
def affineBit (b : UInt8) (i : Nat) : Bool :=
  let bit := fun k => b.toNat.testBit (k % 8)
  bit i ^^ bit (i + 4) ^^ bit (i + 5) ^^ bit (i + 6) ^^ bit (i + 7) ^^ Nat.testBit 0x63 i

def affine (b : UInt8) : UInt8 :=
  UInt8.ofNat ((List.range 8).foldr (fun i byte => (affineBit b i).toNat <<< i + byte) 0)

/-- The S-box: inversion, then the affine map. -/
def sbox (b : UInt8) : UInt8 := affine (inv b)

def subBytes (s : State) : State := fun r c => sbox (s r c)

/-- Row `r` moves by `r` places. -/
def shiftRows (s : State) : State := fun r c => s r (c + r)

/-- The fixed matrix; each row is the one before, turned by one place. -/
def matrix (r k : Fin 4) : UInt8 := [2, 3, 1, 1].getD (k - r).val 0

/-- Each column is multiplied by the matrix. -/
def mixColumns (s : State) : State := fun r c =>
  mul (matrix r 0) (s 0 c) ^^^ mul (matrix r 1) (s 1 c) ^^^ mul (matrix r 2) (s 2 c) ^^^
    mul (matrix r 3) (s 3 c)

def addRoundKey (s key : State) : State := fun r c => s r c ^^^ key r c

def rotWord (w : Word) : Word := fun r => w (r + 1)

def subWord (w : Word) : Word := fun r => sbox (w r)

/-- The round constant: a power of x in the first byte. -/
def rcon (j : Nat) : Word := fun r => if r = 0 then Nat.repeat xtime (j - 1) 1 else 0

/-- The words of the key schedule. -/
def word (key : State) (i : Nat) : Word :=
  if first : i < 4 then fun r => key r ⟨i, first⟩
  else
    let temp := word key (i - 1)
    fun r => word key (i - 4) r ^^^
      (if i % 4 = 0 then subWord (rotWord temp) r ^^^ rcon (i / 4) r else temp r)
termination_by i

def roundKey (key : State) (n : Nat) : State := fun r c => word key (4 * n + c) r

/-- Round `n` of the nine that mix the columns. -/
def round (key s : State) (n : Nat) : State :=
  addRoundKey (mixColumns (shiftRows (subBytes s))) (roundKey key n)

def cipher (key s : State) : State :=
  let middle := (List.range' 1 9).foldl (round key) (addRoundKey s (roundKey key 0))
  addRoundKey (shiftRows (subBytes middle)) (roundKey key 10)

/-- A block of sixteen bytes as a state, and back. -/
def input (block : List UInt8) : State := fun r c => block.getD (r + 4 * c) 0

def output (s : State) : List UInt8 :=
  List.ofFn fun i : Fin 16 => s ⟨i % 4, by omega⟩ ⟨i / 4, by omega⟩

/-- AES-128 on a key and a block of sixteen bytes each. -/
def encrypt (key block : List UInt8) : List UInt8 := output (cipher (input key) (input block))

theorem output_input {block : List UInt8} (sixteen : block.length = 16) :
    output (input block) = block := by
  apply List.ext_getElem?
  intro i
  rw [output, List.getElem?_ofFn]
  by_cases inside : i < 16
  · have place : i % 4 + 4 * (i / 4) = i := by omega
    rw [dif_pos inside, List.getElem?_eq_getElem (by omega)]
    simp only [input, place, List.getD_eq_getElem?_getD]
    rw [List.getElem?_eq_getElem (by omega), Option.getD_some]
  · rw [dif_neg inside, List.getElem?_eq_none (by omega)]

end Fips197
