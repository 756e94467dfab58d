import TransparentOffload.AesStandard

set_option autoImplicit false

/- Under one key the cipher permutes the blocks, so no two counters have the same block
of the key stream. -/
namespace TransparentOffload.Aes

open Gf256

/-- `mixColumn` undone: the sum of a column survives it, and from the sum the sums of two
entries and at last the entries are found. -/
def unmixColumn : Bytes → Bytes
  | [b0, b1, b2, b3] =>
    let h := b0 ^^^ b1 ^^^ b2 ^^^ b3
    let u := b0 ^^^ b2 ^^^ xt h
    let v := b0 ^^^ b1 ^^^ xt u
    let a := b0 ^^^ h ^^^ xt v
    [a, a ^^^ v, a ^^^ u, h ^^^ u ^^^ v ^^^ a]
  | other => other

theorem unmixColumn_mixColumn (a b c d : UInt8) :
    unmixColumn (mixColumn [a, b, c, d]) = [a, b, c, d] := by
  have left (x y z : UInt8) : x ^^^ (y ^^^ z) = y ^^^ (x ^^^ z) := by ac_rfl
  have cancel (x y : UInt8) : x ^^^ (x ^^^ y) = y := by
    rw [← UInt8.xor_assoc, UInt8.xor_self, UInt8.zero_xor]
  simp only [unmixColumn, mixColumn, xt_eq, xtime_xor, UInt8.xor_comm, left, cancel,
    UInt8.xor_self, UInt8.xor_zero]

/-- `sub` undone. -/
theorem inv_unaffine_sub (x : UInt8) : inv (unaffine (sub x)) = x := by
  by_cases zero : x = 0
  · have entry : unaffine (sub 0) = 0 := by decide
    rw [zero, entry, inv_zero]
  · apply inv_eq
    rw [mul_comm]
    exact (sub_entry zero).1

theorem sub_injective {x y : UInt8} (same : sub x = sub y) : x = y := by
  rw [← inv_unaffine_sub x, same, inv_unaffine_sub y]

theorem xorBytes_cancel {s t key : Bytes} (sixteen : s.length = 16) (other : t.length = 16)
    (chunk : key.length = 16) (same : xorBytes s key = xorBytes t key) : s = t := by
  have back {u : Bytes} (whole : u.length = 16) : xorBytes (xorBytes u key) key = u := by
    apply List.ext_getElem
    · simp [xorBytes, whole, chunk]
    · intro i _ _
      simp only [xorBytes, List.getElem_zipWith]
      rw [UInt8.xor_assoc, UInt8.xor_self, UInt8.xor_zero]
  rw [← back sixteen, same, back other]

theorem mixColumns_cancel {s t : Bytes} (sixteen : s.length = 16) (other : t.length = 16)
    (same : mixColumns s = mixColumns t) : s = t := by
  have unmixed {u : Bytes} (whole : u.length = 16) :
      ((List.range 4).flatMap fun c => unmixColumn (((mixColumns u).drop (c * 4)).take 4)) = u := by
    obtain ⟨a0, a1, a2, a3, b0, b1, b2, b3, c0, c1, c2, c3, d0, d1, d2, d3, rfl⟩ :=
      exists_bytes whole
    have columns : mixColumns [a0, a1, a2, a3, b0, b1, b2, b3, c0, c1, c2, c3, d0, d1, d2, d3] =
        mixColumn [a0, a1, a2, a3] ++ (mixColumn [b0, b1, b2, b3] ++
          (mixColumn [c0, c1, c2, c3] ++ mixColumn [d0, d1, d2, d3])) := rfl
    have four : List.range 4 = [0, 1, 2, 3] := rfl
    have parts := unmixColumn_mixColumn
    simp only [mixColumn] at parts columns
    simp [four, columns, parts]
  rw [← unmixed sixteen, same, unmixed other]

theorem shifted_cancel {s t : Bytes} (sixteen : s.length = 16) (other : t.length = 16)
    (same : (shifted.map fun i => s.getD i 0) = shifted.map fun i => t.getD i 0) : s = t := by
  obtain ⟨a0, a1, a2, a3, b0, b1, b2, b3, c0, c1, c2, c3, d0, d1, d2, d3, rfl⟩ :=
    exists_bytes sixteen
  obtain ⟨e0, e1, e2, e3, f0, f1, f2, f3, g0, g1, g2, g3, h0, h1, h2, h3, rfl⟩ :=
    exists_bytes other
  simp [shifted] at same
  simp [same]

theorem round_cancel {rk s t : Bytes} (whole : rk.length = 176) (sixteen : s.length = 16)
    (other : t.length = 16) {r : Nat} (last : r ≤ 10) (same : round rk s r = round rk t r) :
    s = t := by
  have moved (u : Bytes) : (shifted.map fun i => (u.map sub).getD i 0).length = 16 := rfl
  have chunk := length_chunk whole last
  have rows : (shifted.map fun i => (s.map sub).getD i 0) =
      shifted.map fun i => (t.map sub).getD i 0 := by
    unfold round at same
    dsimp only at same
    split at same
    · exact mixColumns_cancel (moved s) (moved t) (xorBytes_cancel (length_mixColumns (moved s))
        (length_mixColumns (moved t)) chunk same)
    · exact xorBytes_cancel (moved s) (moved t) chunk same
  have subbed := shifted_cancel (by simpa using sixteen) (by simpa using other) rows
  exact List.map_injective_iff.mpr (fun _ _ => sub_injective) subbed

theorem aesEnc_cancel {rk s t : Bytes} (whole : rk.length = 176) (sixteen : s.length = 16)
    (other : t.length = 16) (same : aesEnc rk s = aesEnc rk t) : s = t := by
  have rounds (n : Nat) (few : n ≤ 10) (u v : Bytes) (hu : u.length = 16) (hv : v.length = 16)
      (equal : (List.range' 1 n).foldl (round rk) u = (List.range' 1 n).foldl (round rk) v) :
      u = v := by
    induction n with
    | zero => exact equal
    | succ n ih =>
      have length {w : Bytes} (start : w.length = 16) :
          ((List.range' 1 n).foldl (round rk) w).length = 16 := by
        cases n with
        | zero => exact start
        | succ n =>
          rw [List.range'_concat, List.foldl_append]
          simp only [List.foldl_cons, List.foldl_nil]
          exact length_round whole _ (by omega)
      rw [List.range'_concat, List.foldl_append, List.foldl_append] at equal
      simp only [List.foldl_cons, List.foldl_nil] at equal
      exact ih (by omega) (round_cancel whole (length hu) (length hv) (by omega) equal)
  have chunk : (rk.take 16).length = 16 := length_chunk whole (Nat.zero_le 10)
  have start {u : Bytes} (size : u.length = 16) : (xorBytes u (rk.take 16)).length = 16 := by
    rw [xorBytes, List.length_zipWith, size, chunk, Nat.min_self]
  have first := rounds 10 (Nat.le_refl 10) _ _ (start sixteen) (start other) same
  exact xorBytes_cancel sixteen other chunk first

/-- Counters that differ have different blocks. -/
theorem counterBlock_injective {c c' : Nat} (fits : c < 2 ^ 64) (fits' : c' < 2 ^ 64)
    (same : counterBlock c = counterBlock c') : c = c' := by
  have bytes := List.map_inj_left.mp (List.append_cancel_left same)
  have byte : ∀ n < 8, c / 256 ^ n % 256 = c' / 256 ^ n % 256 := by
    intro n low
    have place : 8 * (7 - (7 - n)) = 8 * n := by omega
    have entry := congrArg UInt8.toNat (bytes (7 - n) (List.mem_range.mpr (by omega)))
    rwa [UInt8.toNat_ofNat', UInt8.toNat_ofNat', Nat.shiftRight_eq_div_pow,
      Nat.shiftRight_eq_div_pow, place, Nat.pow_mul] at entry
  have low : ∀ n ≤ 8, c % 256 ^ n = c' % 256 ^ n := by
    intro n few
    induction n with
    | zero => rw [Nat.pow_zero, Nat.mod_one, Nat.mod_one]
    | succ n ih => rw [Nat.mod_pow_succ, Nat.mod_pow_succ, ih (by omega), byte n (by omega)]
  have whole := low 8 (Nat.le_refl 8)
  omega

/-- So some byte of their blocks of the key stream differs. -/
theorem keystream_ne {rk : Bytes} (whole : rk.length = 176) (c c' : Nat) (fits : c < 2 ^ 64)
    (fits' : c' < 2 ^ 64) (differ : c ≠ c') :
    ∃ j < 16, keystream rk c j ≠ keystream rk c' j := by
  have size (c : Nat) : (counterBlock c).length = 16 := by simp [counterBlock]
  have long (c : Nat) : (aesEnc rk (counterBlock c)).length = 16 := by
    have ten : List.range' 1 10 = List.range' 1 9 ++ [10] := rfl
    rw [aesEnc, ten, List.foldl_append]
    exact length_round whole _ (Nat.le_refl 10)
  by_contra agree
  apply differ
  apply counterBlock_injective fits fits'
  apply aesEnc_cancel whole (size c) (size c')
  apply List.ext_getElem (by rw [long, long])
  intro j inside inside'
  have inRange : j < 16 := by rwa [long] at inside
  have same : keystream rk c j = keystream rk c' j := by
    by_contra other
    exact agree ⟨j, inRange, other⟩
  have front : j / 16 = 0 := Nat.div_eq_of_lt inRange
  simp only [keystream, front, Nat.add_zero, Nat.mod_eq_of_lt inRange, List.getD_eq_getElem?_getD,
    List.getElem?_eq_getElem inside, List.getElem?_eq_getElem inside', Option.getD_some] at same
  exact same

end TransparentOffload.Aes
