import TransparentOffload.Aes

set_option autoImplicit false

/- `aes_enc` of `aes_dev.cuh` and `aes_encrypt_block` of `aes_gpu.cu` as they run: one
array of sixteen bytes, changed by one assignment after the other. -/
namespace TransparentOffload.Aes

/-- `s[i]=s[j]`. -/
def assign (s : Bytes) (i j : Nat) : Bytes := s.set i (s.getD j 0)

/-- `s[i]^=b`. -/
def xorAt (s : Bytes) (i : Nat) (b : UInt8) : Bytes := s.set i (s.getD i 0 ^^^ b)

/-- The loop over the array that substitutes each byte. -/
def substitute (s : Bytes) : Bytes :=
  (List.range 16).foldl (fun s i => s.set i (sub (s.getD i 0))) s

/-- The row that begins with `s[1]`, through the temporary `t`. -/
def rotateRow1 (s : Bytes) : Bytes :=
  let t := s.getD 1 0
  (assign (assign (assign s 1 5) 5 9) 9 13).set 13 t

/-- Two exchanges. -/
def rotateRow2 (s : Bytes) : Bytes :=
  let t := s.getD 2 0
  let s := (assign s 2 10).set 10 t
  let t := s.getD 6 0
  (assign s 6 14).set 14 t

/-- The row that ends with `s[15]`, the other way. -/
def rotateRow3 (s : Bytes) : Bytes :=
  let t := s.getD 15 0
  (assign (assign (assign s 15 11) 11 7) 7 3).set 3 t

/-- The column `c`, with `p` at its first byte. -/
def mixAt (s : Bytes) (c : Nat) : Bytes :=
  let p := c * 4
  let a0 := s.getD p 0
  let a1 := s.getD (p + 1) 0
  let a2 := s.getD (p + 2) 0
  let a3 := s.getD (p + 3) 0
  let h := a0 ^^^ a1 ^^^ a2 ^^^ a3
  let s := xorAt s p (h ^^^ xt (a0 ^^^ a1))
  let s := xorAt s (p + 1) (h ^^^ xt (a1 ^^^ a2))
  let s := xorAt s (p + 2) (h ^^^ xt (a2 ^^^ a3))
  xorAt s (p + 3) (h ^^^ xt (a3 ^^^ a0))

/-- The loop that adds the round key `r`. -/
def addKey (rk : Bytes) (r : Nat) (s : Bytes) : Bytes :=
  (List.range 16).foldl (fun s i => xorAt s i (rk.getD (r * 16 + i) 0)) s

def roundInPlace (rk s : Bytes) (r : Nat) : Bytes :=
  let moved := rotateRow3 (rotateRow2 (rotateRow1 (substitute s)))
  addKey rk r (if r ≠ 10 then (List.range 4).foldl mixAt moved else moved)

/-- `aes_encrypt_block`. -/
def aesEncryptBlock (rk s : Bytes) : Bytes :=
  (List.range' 1 10).foldl (roundInPlace rk) (addKey rk 0 s)

/-- A block of sixteen bytes, byte by byte. -/
theorem exists_bytes {s : Bytes} (sixteen : s.length = 16) :
    ∃ a0 a1 a2 a3 b0 b1 b2 b3 c0 c1 c2 c3 d0 d1 d2 d3,
      s = [a0, a1, a2, a3, b0, b1, b2, b3, c0, c1, c2, c3, d0, d1, d2, d3] := by
  match s, sixteen with
  | [a0, a1, a2, a3, b0, b1, b2, b3, c0, c1, c2, c3, d0, d1, d2, d3], _ =>
    exact ⟨a0, a1, a2, a3, b0, b1, b2, b3, c0, c1, c2, c3, d0, d1, d2, d3, rfl⟩

/-- A loop that assigns each byte of an array once. -/
theorem foldl_set (f : Nat → UInt8 → UInt8) (s : Bytes) {n : Nat} (inside : n ≤ s.length) :
    (List.range n).foldl (fun s i => s.set i (f i (s.getD i 0))) s =
      (s.take n).mapIdx f ++ s.drop n := by
  induction n with
  | zero => simp
  | succ n ih =>
    have here : n < s.length := inside
    have front : ((s.take n).mapIdx f).length = n := by simp; omega
    have next : s.drop n = s[n] :: s.drop (n + 1) := List.drop_eq_getElem_cons here
    have entry : ((s.take n).mapIdx f ++ s[n] :: s.drop (n + 1)).getD n 0 = s[n] := by
      rw [List.getD_eq_getElem?_getD, List.getElem?_append_right (by omega), front, Nat.sub_self]
      rfl
    have grown : s.take (n + 1) = s.take n ++ [s[n]] := by
      rw [List.take_add_one, List.getElem?_eq_getElem here]
      rfl
    have size : (s.take n).length = n := by simp; omega
    rw [List.range_succ, List.foldl_append, ih (by omega), List.foldl_cons, List.foldl_nil, next,
      entry, List.set_append_right _ _ (by omega), front, Nat.sub_self, List.set_cons_zero, grown,
      List.mapIdx_append, size, List.append_assoc]
    simp

theorem substitute_eq {s : Bytes} (sixteen : s.length = 16) : substitute s = s.map sub := by
  have all := foldl_set (fun _ => sub) s (Nat.le_of_eq sixteen.symm)
  rw [substitute, all, List.take_of_length_le (by omega), List.drop_of_length_le (by omega),
    List.append_nil]
  exact List.ext_getElem? fun i => by rw [List.getElem?_mapIdx, List.getElem?_map]

theorem length_chunk {rk : Bytes} (whole : rk.length = 176) {r : Nat} (last : r ≤ 10) :
    ((rk.drop (r * 16)).take 16).length = 16 := by
  rw [List.length_take, List.length_drop]
  omega

theorem addKey_eq {rk s : Bytes} (whole : rk.length = 176) (sixteen : s.length = 16) {r : Nat}
    (last : r ≤ 10) : addKey rk r s = xorBytes s ((rk.drop (r * 16)).take 16) := by
  have all := foldl_set (fun i b => b ^^^ rk.getD (r * 16 + i) 0) s (Nat.le_of_eq sixteen.symm)
  have loop : addKey rk r s =
      (List.range 16).foldl (fun s i => s.set i (s.getD i 0 ^^^ rk.getD (r * 16 + i) 0)) s := rfl
  rw [loop, all, List.take_of_length_le (by omega), List.drop_of_length_le (by omega),
    List.append_nil]
  apply List.ext_getElem?
  intro i
  by_cases inside : i < 16
  · have key : i + r * 16 < rk.length := by omega
    rw [List.getElem?_mapIdx, xorBytes, List.getElem?_zipWith, List.getElem?_take, if_pos inside,
      List.getElem?_drop, Nat.add_comm (r * 16), List.getD_eq_getElem?_getD,
      List.getElem?_eq_getElem key, List.getElem?_eq_getElem (by omega)]
    rfl
  · have short := length_chunk whole last
    rw [List.getElem?_eq_none (by simp; omega), List.getElem?_eq_none]
    rw [xorBytes, List.length_zipWith]
    omega

theorem rotateRows_eq {s : Bytes} (sixteen : s.length = 16) :
    rotateRow3 (rotateRow2 (rotateRow1 s)) = shifted.map fun i => s.getD i 0 := by
  obtain ⟨a0, a1, a2, a3, b0, b1, b2, b3, c0, c1, c2, c3, d0, d1, d2, d3, rfl⟩ :=
    exists_bytes sixteen
  rfl

theorem mixAt_eq {s : Bytes} (sixteen : s.length = 16) :
    (List.range 4).foldl mixAt s = mixColumns s := by
  obtain ⟨a0, a1, a2, a3, b0, b1, b2, b3, c0, c1, c2, c3, d0, d1, d2, d3, rfl⟩ :=
    exists_bytes sixteen
  have four : List.range 4 = [0, 1, 2, 3] := rfl
  simp [four, mixAt, xorAt, mixColumns, mixColumn]

theorem length_mixColumns {s : Bytes} (sixteen : s.length = 16) : (mixColumns s).length = 16 := by
  obtain ⟨a0, a1, a2, a3, b0, b1, b2, b3, c0, c1, c2, c3, d0, d1, d2, d3, rfl⟩ :=
    exists_bytes sixteen
  rfl

theorem length_round {rk : Bytes} (whole : rk.length = 176) (s : Bytes) {r : Nat} (last : r ≤ 10) :
    (round rk s r).length = 16 := by
  have moved : (shifted.map fun i => (s.map sub).getD i 0).length = 16 := rfl
  have key := length_chunk whole last
  have mixed := length_mixColumns moved
  unfold round
  dsimp only
  split
  · rw [xorBytes, List.length_zipWith, mixed, key, Nat.min_self]
  · rw [xorBytes, List.length_zipWith, moved, key, Nat.min_self]

theorem roundInPlace_eq {rk s : Bytes} (whole : rk.length = 176) (sixteen : s.length = 16)
    {r : Nat} (last : r ≤ 10) : roundInPlace rk s r = round rk s r := by
  have subbed : (s.map sub).length = 16 := by rw [List.length_map, sixteen]
  have moved : (shifted.map fun i => (s.map sub).getD i 0).length = 16 := rfl
  unfold roundInPlace round
  rw [substitute_eq sixteen, rotateRows_eq subbed]
  dsimp only
  split
  · rw [mixAt_eq moved, addKey_eq whole (length_mixColumns moved) last]
  · rw [addKey_eq whole moved last]

/-- The assignments compute what the cipher on lists does. -/
theorem aesEncryptBlock_eq {rk s : Bytes} (whole : rk.length = 176) (sixteen : s.length = 16) :
    aesEncryptBlock rk s = aesEnc rk s := by
  have rounds (n : Nat) (few : n ≤ 10) (t : Bytes) (start : t.length = 16) :
      (List.range' 1 n).foldl (roundInPlace rk) t = (List.range' 1 n).foldl (round rk) t ∧
        ((List.range' 1 n).foldl (round rk) t).length = 16 := by
    induction n with
    | zero =>
      rw [List.range'_zero, List.foldl_nil, List.foldl_nil]
      exact ⟨rfl, start⟩
    | succ n ih =>
      obtain ⟨same, length⟩ := ih (by omega)
      rw [List.range'_concat, List.foldl_append, List.foldl_append, same]
      simp only [List.foldl_cons, List.foldl_nil]
      exact ⟨roundInPlace_eq whole length (by omega), length_round whole _ (by omega)⟩
  have first : addKey rk 0 s = xorBytes s (rk.take 16) := addKey_eq whole sixteen (Nat.zero_le 10)
  have chunk : (rk.take 16).length = 16 := length_chunk whole (Nat.zero_le 10)
  have start : (xorBytes s (rk.take 16)).length = 16 := by
    rw [xorBytes, List.length_zipWith, sixteen, chunk, Nat.min_self]
  obtain ⟨same, _⟩ := rounds 10 (Nat.le_refl 10) _ start
  rw [aesEncryptBlock, first, same, aesEnc]

end TransparentOffload.Aes
