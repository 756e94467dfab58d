import Mathlib.Data.Fintype.Basic
import Mathlib.Tactic.FinCases
import TransparentOffload.AesInPlace
import TransparentOffload.Lib.Fips197

set_option autoImplicit false

/- The cipher of `aes_dev.cuh` and of `aes_gpu.cu` against its standard: the table, the
rows rotated in place, the columns mixed with `xt`, and the key schedule. -/
namespace TransparentOffload.Aes

open Gf256

/-- The affine map undone. -/
def unaffine (b : UInt8) : UInt8 :=
  let turned := fun k => (b <<< k) ||| (b >>> (8 - k))
  turned 1 ^^^ turned 3 ^^^ turned 6 ^^^ 0x05

/-- Each entry of the table is the affine map of an inverse. -/
theorem sub_entry {x : UInt8} (nonzero : x ≠ 0) :
    mul x (unaffine (sub x)) = 1 ∧ Fips197.affine (unaffine (sub x)) = sub x := by
  have entries : ∀ n < 256, n ≠ 0 →
      mul (UInt8.ofNat n) (unaffine (sub (UInt8.ofNat n))) = 1 ∧
        Fips197.affine (unaffine (sub (UInt8.ofNat n))) = sub (UInt8.ofNat n) := by
    decide +kernel
  have entry := entries x.toNat x.toNat_lt fun none_ => nonzero (UInt8.toNat_inj.mp none_)
  rwa [UInt8.ofNat_toNat] at entry

/-- The table is the S-box of the standard. -/
theorem sub_eq (x : UInt8) : sub x = Fips197.sbox x := by
  by_cases zero : x = 0
  · rw [zero, Fips197.sbox, inv_zero]
    decide
  · obtain ⟨inverse, entry⟩ := sub_entry zero
    rw [Fips197.sbox, inv_eq inverse, entry]

theorem xt_eq (x : UInt8) : xt x = xtime x := by
  have all : ∀ n < 256, xt (UInt8.ofNat n) = xtime (UInt8.ofNat n) := by decide +kernel
  simpa using all x.toNat x.toNat_lt

theorem one_mul (x : UInt8) : mul 1 x = x := by rw [mul_comm, mul_one]

theorem two_mul (x : UInt8) : mul 2 x = xtime x := by
  have two : (2 : UInt8) = xtime 1 := by decide
  rw [mul_comm, two, mul_xtime, mul_one]

theorem three_mul (x : UInt8) : mul 3 x = xtime x ^^^ x := by
  have three : (3 : UInt8) = 2 ^^^ 1 := by decide
  rw [mul_comm, three, mul_xor, mul_comm, two_mul, mul_one]

/-- What `aes_enc` computes for an entry of a column, from the sum of the column. -/
theorem mix_entry (a b c d : UInt8) :
    a ^^^ ((a ^^^ b ^^^ c ^^^ d) ^^^ xt (a ^^^ b)) = mul 2 a ^^^ mul 3 b ^^^ c ^^^ d := by
  have cancel (u v : UInt8) : u ^^^ (u ^^^ v) = v := by
    rw [← UInt8.xor_assoc, UInt8.xor_self, UInt8.zero_xor]
  rw [xt_eq, xtime_xor, two_mul, three_mul]
  calc
    _ = a ^^^ (a ^^^ (xtime a ^^^ (xtime b ^^^ b) ^^^ c ^^^ d)) := by ac_rfl
    _ = _ := cancel _ _

/-- A column is multiplied by the matrix. -/
theorem mixColumn_eq (a b c d : UInt8) :
    mixColumn [a, b, c, d] =
      [mul 2 a ^^^ mul 3 b ^^^ mul 1 c ^^^ mul 1 d, mul 1 a ^^^ mul 2 b ^^^ mul 3 c ^^^ mul 1 d,
        mul 1 a ^^^ mul 1 b ^^^ mul 2 c ^^^ mul 3 d,
        mul 3 a ^^^ mul 1 b ^^^ mul 1 c ^^^ mul 2 d] := by
  have first := mix_entry a b c d
  have second := mix_entry b c d a
  have third := mix_entry c d a b
  have fourth := mix_entry d a b c
  have sum2 : b ^^^ c ^^^ d ^^^ a = a ^^^ b ^^^ c ^^^ d := by ac_rfl
  have sum3 : c ^^^ d ^^^ a ^^^ b = a ^^^ b ^^^ c ^^^ d := by ac_rfl
  have sum4 : d ^^^ a ^^^ b ^^^ c = a ^^^ b ^^^ c ^^^ d := by ac_rfl
  rw [sum2] at second
  rw [sum3] at third
  rw [sum4] at fourth
  simp only [mixColumn, first, second, third, fourth, one_mul]
  congr 1
  congr 1
  · ac_rfl
  congr 1
  · ac_rfl
  congr 1
  ac_rfl

/-- Two squares are equal when they agree in each of their places. -/
theorem state_ext {s t : Fips197.State} (same : ∀ r c : Fin 4, s r c = t r c) : s = t := by
  funext r c
  exact same r c

theorem place_lt (r c : Fin 4) : r.val + 4 * c.val < 16 := by omega

theorem input_sub {s : Bytes} (sixteen : s.length = 16) :
    Fips197.input (s.map sub) = Fips197.subBytes (Fips197.input s) := by
  apply state_ext
  intro r c
  have inside := place_lt r c
  simp only [Fips197.input, Fips197.subBytes, List.getD_eq_getElem?_getD, List.getElem?_map]
  rw [List.getElem?_eq_getElem (by omega), Option.map_some, Option.getD_some, Option.getD_some,
    sub_eq]

/-- The places that the rows are moved from. -/
theorem input_shifted (s : Bytes) :
    Fips197.input (shifted.map fun i => s.getD i 0) = Fips197.shiftRows (Fips197.input s) := by
  have places : ∀ r c : Fin 4, shifted.getD (r + 4 * c) 0 = r + 4 * (c + r : Fin 4).val := by
    decide
  apply state_ext
  intro r c
  have inside : r.val + 4 * c.val < shifted.length := place_lt r c
  have place := places r c
  simp only [Fips197.input, Fips197.shiftRows, List.getD_eq_getElem?_getD, List.getElem?_map] at *
  rw [List.getElem?_eq_getElem inside] at place ⊢
  rw [Option.map_some, Option.getD_some]
  rw [Option.getD_some] at place
  rw [place]

theorem input_mixColumns {s : Bytes} (sixteen : s.length = 16) :
    Fips197.input (mixColumns s) = Fips197.mixColumns (Fips197.input s) := by
  obtain ⟨a0, a1, a2, a3, b0, b1, b2, b3, c0, c1, c2, c3, d0, d1, d2, d3, rfl⟩ :=
    exists_bytes sixteen
  have mixed : mixColumns [a0, a1, a2, a3, b0, b1, b2, b3, c0, c1, c2, c3, d0, d1, d2, d3] =
      mixColumn [a0, a1, a2, a3] ++ (mixColumn [b0, b1, b2, b3] ++
        (mixColumn [c0, c1, c2, c3] ++ mixColumn [d0, d1, d2, d3])) := rfl
  rw [mixed]
  simp only [mixColumn_eq]
  apply state_ext
  intro r c
  fin_cases r <;> fin_cases c <;> rfl

/-- A key word as the four bytes it is stored in. -/
def wordBytes (w : Fips197.Word) : Bytes := List.ofFn w

theorem wordBytes_eq (w : Fips197.Word) : wordBytes w = [w 0, w 1, w 2, w 3] := rfl

theorem xorBytes_wordBytes (v w : Fips197.Word) :
    xorBytes (wordBytes v) (wordBytes w) = wordBytes fun r => v r ^^^ w r := rfl

theorem rc_eq {j : Nat} (inside : j < 10) : rc.getD j 0 = Nat.repeat xtime j 1 := by
  have all : ∀ j < 10, rc.getD j 0 = Nat.repeat xtime j 1 := by decide
  exact all j inside

/-- The temporary of `key_expand` is that of the standard. -/
theorem keyTemp_eq (w : Fips197.Word) {i : Nat} (low : 4 ≤ i) (high : i < 44) :
    keyTemp i (wordBytes w) = wordBytes fun r =>
      if i % 4 = 0 then Fips197.subWord (Fips197.rotWord w) r ^^^ Fips197.rcon (i / 4) r
      else w r := by
  unfold keyTemp
  rw [wordBytes_eq, wordBytes_eq]
  by_cases start : i % 4 = 0
  · have constant := rc_eq (show i / 4 - 1 < 10 by omega)
    simp only [if_pos start, constant, sub_eq]
    simp [Fips197.subWord, Fips197.rotWord, Fips197.rcon]
  · simp only [if_neg start]

/-- The words that the rounds of `key_expand` have made. -/
theorem foldl_keyWord {key : Bytes} (n : Nat) (few : n ≤ 40) (first : List Bytes)
    (words : first = (List.range 4).map fun i => wordBytes (Fips197.word (Fips197.input key) i)) :
    (List.range' 4 n).foldl keyWord first =
      (List.range (4 + n)).map fun i => wordBytes (Fips197.word (Fips197.input key) i) := by
  induction n with
  | zero => exact words
  | succ n ih =>
    have made := ih (by omega)
    have entry (j : Nat) (inside : j < 4 + n) :
        ((List.range (4 + n)).map fun i => wordBytes (Fips197.word (Fips197.input key) i)).getD j []
          = wordBytes (Fips197.word (Fips197.input key) j) := by
      rw [List.getD_eq_getElem?_getD, List.getElem?_map, List.getElem?_range inside]
      rfl
    have next : Fips197.word (Fips197.input key) (4 + n) = fun r =>
        Fips197.word (Fips197.input key) (4 + n - 4) r ^^^
          (if (4 + n) % 4 = 0 then
            Fips197.subWord (Fips197.rotWord (Fips197.word (Fips197.input key) (4 + n - 1))) r ^^^
              Fips197.rcon ((4 + n) / 4) r
          else Fips197.word (Fips197.input key) (4 + n - 1) r) := by
      conv_lhs => rw [Fips197.word, dif_neg (by omega)]
    rw [List.range'_concat, List.foldl_append, made, Nat.one_mul, List.foldl_cons, List.foldl_nil,
      keyWord, entry _ (by omega), entry _ (by omega), keyTemp_eq _ (by omega) (by omega),
      xorBytes_wordBytes, ← next, ← Nat.add_assoc, List.range_succ, List.map_append]
    rfl

/-- `key_expand` makes the words of the standard's key schedule. -/
theorem keyExpand_eq {key : Bytes} (sixteen : key.length = 16) :
    keyExpand key =
      (List.range 44).flatMap fun i => wordBytes (Fips197.word (Fips197.input key) i) := by
  have firstWord (i : Nat) (few : i < 4) : Fips197.word (Fips197.input key) i =
      fun r => Fips197.input key r ⟨i, few⟩ := by
    rw [Fips197.word, dif_pos few]
  have words : [key.take 4, (key.drop 4).take 4, (key.drop 8).take 4, (key.drop 12).take 4] =
      (List.range 4).map fun i => wordBytes (Fips197.word (Fips197.input key) i) := by
    have four : List.range 4 = [0, 1, 2, 3] := rfl
    simp only [four, List.map_cons, List.map_nil, firstWord 0 (by decide), firstWord 1 (by decide),
      firstWord 2 (by decide), firstWord 3 (by decide)]
    obtain ⟨a0, a1, a2, a3, b0, b1, b2, b3, c0, c1, c2, c3, d0, d1, d2, d3, rfl⟩ :=
      exists_bytes sixteen
    rfl
  rw [keyExpand, foldl_keyWord 40 (by decide) _ words, List.flatMap_def]

/-- A byte of a list of words of four bytes each. -/
theorem getD_flatMap_words (f : Nat → Fips197.Word) (n i : Nat) (inside : i < n) (r : Fin 4) :
    ((List.range n).flatMap fun j => wordBytes (f j)).getD (4 * i + r) 0 = f i r := by
  induction n with
  | zero => omega
  | succ n ih =>
    have size : ((List.range n).flatMap fun j => wordBytes (f j)).length = 4 * n := by
      simp [List.length_flatMap, wordBytes, Nat.mul_comm]
    rw [List.range_succ, List.flatMap_append, List.getD_eq_getElem?_getD]
    by_cases earlier : i < n
    · rw [List.getElem?_append_left (by omega), ← List.getD_eq_getElem?_getD, ih earlier]
    · have last : i = n := by omega
      rw [List.getElem?_append_right (by omega), size, last, Nat.add_sub_cancel_left]
      fin_cases r <;> rfl

/-- Sixteen bytes of the round keys at a time. -/
theorem input_roundKey {key : Bytes} (sixteen : key.length = 16) {n : Nat} (last : n ≤ 10) :
    Fips197.input (((keyExpand key).drop (n * 16)).take 16) =
      Fips197.roundKey (Fips197.input key) n := by
  apply state_ext
  intro r c
  have inside := place_lt r c
  have place : n * 16 + (r + 4 * c) = 4 * (4 * n + c) + r := by omega
  have byte := getD_flatMap_words (Fips197.word (Fips197.input key)) 44 (4 * n + c) (by omega) r
  rw [Fips197.input, Fips197.roundKey, List.getD_eq_getElem?_getD, List.getElem?_take,
    if_pos inside, List.getElem?_drop, place, ← List.getD_eq_getElem?_getD, keyExpand_eq sixteen,
    byte]

theorem length_keyExpand {key : Bytes} (sixteen : key.length = 16) :
    (keyExpand key).length = 176 := by
  rw [keyExpand_eq sixteen]
  simp [List.length_flatMap, wordBytes]

theorem input_xorBytes {s t : Bytes} (sixteen : s.length = 16) (other : t.length = 16) :
    Fips197.input (xorBytes s t) = Fips197.addRoundKey (Fips197.input s) (Fips197.input t) := by
  apply state_ext
  intro r c
  have inside := place_lt r c
  simp only [Fips197.input, Fips197.addRoundKey, xorBytes, List.getD_eq_getElem?_getD,
    List.getElem?_zipWith]
  rw [List.getElem?_eq_getElem (by omega), List.getElem?_eq_getElem (by omega)]
  rfl

/-- A round of `aes_enc` is a round of the standard; the last one leaves the columns. -/
theorem input_round {key s : Bytes} (whole : key.length = 16) (sixteen : s.length = 16) {n : Nat}
    (last : n ≤ 10) :
    Fips197.input (round (keyExpand key) s n) =
      Fips197.addRoundKey
        (if n ≠ 10 then
          Fips197.mixColumns (Fips197.shiftRows (Fips197.subBytes (Fips197.input s)))
        else Fips197.shiftRows (Fips197.subBytes (Fips197.input s)))
        (Fips197.roundKey (Fips197.input key) n) := by
  have moved : (shifted.map fun i => (s.map sub).getD i 0).length = 16 := rfl
  have chunk := length_chunk (length_keyExpand whole) last
  have rows := input_shifted (s.map sub)
  rw [input_sub sixteen] at rows
  unfold round
  dsimp only
  split
  · rw [input_xorBytes (length_mixColumns moved) chunk, input_mixColumns moved, rows,
      input_roundKey whole last]
  · rw [input_xorBytes moved chunk, rows, input_roundKey whole last]

/-- The rounds on the round keys of `key_expand` are those of the standard. -/
theorem aesEnc_keyExpand {key block : Bytes} (whole : key.length = 16)
    (sixteen : block.length = 16) :
    aesEnc (keyExpand key) block = Fips197.encrypt key block := by
  have size := length_keyExpand whole
  have firstKey := input_roundKey whole (Nat.zero_le 10)
  have chunk := length_chunk size (Nat.zero_le 10)
  rw [Nat.zero_mul, List.drop_zero] at firstKey chunk
  have start : (xorBytes block ((keyExpand key).take 16)).length = 16 := by
    rw [xorBytes, List.length_zipWith, sixteen, chunk, Nat.min_self]
  have middle (n : Nat) (few : n ≤ 9) :
      let s := (List.range' 1 n).foldl (round (keyExpand key))
        (xorBytes block ((keyExpand key).take 16))
      s.length = 16 ∧ Fips197.input s = (List.range' 1 n).foldl (Fips197.round (Fips197.input key))
        (Fips197.addRoundKey (Fips197.input block) (Fips197.roundKey (Fips197.input key) 0)) := by
    induction n with
    | zero => exact ⟨start, by rw [← firstKey]; exact input_xorBytes sixteen chunk⟩
    | succ n ih =>
      obtain ⟨length, state⟩ := ih (by omega)
      have step := input_round whole length (show 1 + 1 * n ≤ 10 by omega)
      rw [if_pos (by omega), state] at step
      simp only [List.range'_concat, List.foldl_append, List.foldl_cons, List.foldl_nil]
      exact ⟨length_round size _ (by omega), step⟩
  obtain ⟨length, state⟩ := middle 9 (Nat.le_refl 9)
  have step := input_round whole length (Nat.le_refl 10)
  rw [if_neg (by decide), state] at step
  have split9 : List.range' 1 10 = List.range' 1 9 ++ [10] := rfl
  rw [aesEnc, split9, List.foldl_append]
  simp only [List.foldl_cons, List.foldl_nil]
  rw [← Fips197.output_input (length_round size _ (Nat.le_refl 10)), step]
  rfl

/-- Both listings of the cipher, on the round keys of `key_expand`, are AES-128. -/
theorem aesEnc_eq_fips197 (key block : Bytes) (whole : key.length = 16)
    (sixteen : block.length = 16) :
    aesEnc (keyExpand key) block = Fips197.encrypt key block ∧
      aesEncryptBlock (keyExpand key) block = Fips197.encrypt key block := by
  have standard := aesEnc_keyExpand whole sixteen
  exact ⟨standard, by rw [aesEncryptBlock_eq (length_keyExpand whole) sixteen, standard]⟩

/-- The key and the block of the example in the standard. -/
def exampleKey : Bytes := (List.range 16).map UInt8.ofNat

def exampleBlock : Bytes := (List.range 16).map fun i => UInt8.ofNat (i * 0x11)

theorem aesEnc_eq_fips197_example :
    aesEnc (keyExpand exampleKey) exampleBlock =
        [0x69, 0xc4, 0xe0, 0xd8, 0x6a, 0x7b, 0x04, 0x30, 0xd8, 0xcd, 0xb7, 0x80, 0x70, 0xb4, 0xc5,
          0x5a] ∧
      aesEnc (keyExpand exampleKey) exampleBlock = Fips197.encrypt exampleKey exampleBlock ∧
      aesEncryptBlock (keyExpand exampleKey) exampleBlock =
        Fips197.encrypt exampleKey exampleBlock :=
  ⟨by decide +kernel, aesEnc_eq_fips197 exampleKey exampleBlock rfl rfl⟩

end TransparentOffload.Aes
