import TransparentOffload.Spop

set_option autoImplicit false

/- The varints of `spoa_agent.c` as a code: which byte strings they are, what number
each of them stands for, and `dec_varint` as it runs over the memory behind its pointer. -/
namespace TransparentOffload.Spop

/-- What follows the first byte of a long varint: bytes from 128 on, then one below. -/
inductive Tail : Bytes → Prop
  | last {x : UInt8} (small : x.toNat < 128) : Tail [x]
  | more {x : UInt8} {s : Bytes} (large : 128 ≤ x.toNat) (tail : Tail s) : Tail (x :: s)

/-- A whole varint. -/
inductive Varint : Bytes → Prop
  | short {b : UInt8} (small : b.toNat < 240) : Varint [b]
  | long {b : UInt8} {s : Bytes} (large : 240 ≤ b.toNat) (tail : Tail s) : Varint (b :: s)

/-- The number behind the first byte. The bytes are digits to base 128 that overlap
by one bit. -/
def tailValue : Bytes → Nat
  | [] => 0
  | x :: s => x.toNat + 128 * tailValue s

/-- The number a varint stands for, without any bound. -/
def varintValue : Bytes → Nat
  | [] => 0
  | b :: s => b.toNat + 16 * tailValue s

theorem Tail.ne_nil {s : Bytes} (tail : Tail s) : s ≠ [] := by
  cases tail <;> simp

theorem Tail.length_pos {s : Bytes} (tail : Tail s) : 0 < s.length :=
  List.length_pos_iff.mpr tail.ne_nil

theorem Varint.ne_nil {s : Bytes} (code : Varint s) : s ≠ [] := by
  cases code <;> simp

/-- Each byte before the last one counts at least 128. -/
theorem Tail.le_value {s : Bytes} (tail : Tail s) : 128 ^ (s.length - 1) ≤ tailValue s + 1 := by
  induction tail with
  | last => simp
  | @more x s large tail ih =>
    have positive := tail.length_pos
    have power : 128 ^ s.length = 128 * 128 ^ (s.length - 1) := by
      rw [Nat.mul_comm, ← Nat.pow_succ]
      congr 1
      omega
    simp only [List.length_cons, Nat.add_sub_cancel, tailValue]
    omega

/-- A value below `2 ^ 64` never needs a tail of more than nine bytes. -/
theorem Tail.length_le {s : Bytes} (tail : Tail s) (fits : tailValue s < 2 ^ 60) :
    s.length ≤ 9 := by
  have least := tail.le_value
  have power : 128 ^ (s.length - 1) = 2 ^ (7 * (s.length - 1)) := by
    rw [show 128 = 2 ^ 7 by rfl, ← Nat.pow_mul]
  have bound : 2 ^ (7 * (s.length - 1)) < 2 ^ 61 := by omega
  have exponent := (Nat.pow_lt_pow_iff_right (show 1 < 2 by decide)).mp bound
  omega

/-- The rounds of `enc_varint` write the digits of a tail back. -/
theorem Tail.encMore_value {s : Bytes} (tail : Tail s) {rounds : Nat}
    (enough : s.length ≤ rounds) : encMore rounds (tailValue s) = s := by
  induction tail generalizing rounds with
  | @last x small =>
    obtain ⟨rounds, rfl⟩ : ∃ n, rounds = n + 1 := ⟨rounds - 1, by simp at enough; omega⟩
    have value : tailValue [x] = x.toNat := by simp [tailValue]
    rw [value, encMore, if_neg (by omega), UInt8.ofNat_toNat]
  | @more x s large tail ih =>
    obtain ⟨rounds, rfl⟩ : ∃ n, rounds = n + 1 := ⟨rounds - 1, by simp at enough; omega⟩
    have below := x.toNat_lt
    have digits : tailValue (x :: s) = x.toNat + 128 * tailValue s := rfl
    have left : (tailValue (x :: s) - 128) >>> 7 = tailValue s := by
      rw [Nat.shiftRight_eq_div_pow]
      omega
    have byte : UInt8.ofNat (tailValue (x :: s) ||| 128) = x := by
      apply UInt8.toNat_inj.mp
      rw [toNat_or_128]
      omega
    have enough' : s.length ≤ rounds := by simpa using enough
    rw [encMore, if_pos (by omega), byte, left, ih enough']

/-- `enc_varint` gives back every varint whose value is a 64-bit one. -/
theorem Varint.encVarint_value {s : Bytes} (code : Varint s) (fits : varintValue s < 2 ^ 64) :
    encVarint (UInt64.ofNat (varintValue s)) = s := by
  have value : (UInt64.ofNat (varintValue s)).toNat = varintValue s :=
    UInt64.toNat_ofNat_of_lt' fits
  unfold encVarint
  rw [value]
  cases code with
  | @short b small =>
    have plain : varintValue [b] = b.toNat := by simp [varintValue, tailValue]
    rw [plain, if_pos small, UInt8.ofNat_toNat]
  | @long b s large tail =>
    have below := b.toNat_lt
    have digits : varintValue (b :: s) = b.toNat + 16 * tailValue s := rfl
    have left : (varintValue (b :: s) - 240) >>> 4 = tailValue s := by
      rw [Nat.shiftRight_eq_div_pow]
      omega
    have byte : UInt8.ofNat (varintValue (b :: s) ||| 240) = b := by
      apply UInt8.toNat_inj.mp
      rw [toNat_or_240]
      omega
    have short := tail.length_le (by omega)
    rw [if_neg (by omega), byte, left, tail.encMore_value (by omega)]

/-- What the rounds write for a value that they have room for is a tail of that value. -/
theorem encMore_tail (rounds v : Nat) (fits : v < 128 ^ rounds) (some_ : 0 < rounds) :
    Tail (encMore rounds v) ∧ tailValue (encMore rounds v) = v ∧
      (encMore rounds v).length ≤ rounds := by
  induction rounds generalizing v with
  | zero => omega
  | succ rounds ih =>
    unfold encMore
    by_cases more : v ≥ 128
    · have left : (v - 128) >>> 7 = (v - 128) / 128 := Nat.shiftRight_eq_div_pow ..
      have positive : 0 < rounds := by
        rcases Nat.eq_zero_or_pos rounds with rfl | positive
        · simp at fits
          omega
        · exact positive
      have fits' : (v - 128) / 128 < 128 ^ rounds := by
        rw [Nat.pow_succ] at fits
        omega
      obtain ⟨tail, value, short⟩ := ih ((v - 128) / 128) fits' positive
      have byte := toNat_or_128 v
      rw [if_pos more, left]
      refine ⟨.more (by omega) tail, ?_, by simpa using short⟩
      rw [tailValue, byte, value]
      omega
    · have byte := toNat_small (show v < 256 by omega)
      rw [if_neg more]
      refine ⟨.last (by omega), ?_, by simp⟩
      simp only [tailValue, byte]
      omega

/-- `enc_varint` writes a varint of at most ten bytes that stands for its argument. -/
theorem encVarint_varint (v : UInt64) :
    Varint (encVarint v) ∧ varintValue (encVarint v) = v.toNat ∧ (encVarint v).length ≤ 10 := by
  have below : v.toNat < 2 ^ 64 := v.toNat_lt
  unfold encVarint
  by_cases small : v.toNat < 240
  · have byte := toNat_small (show v.toNat < 256 by omega)
    rw [if_pos small]
    refine ⟨.short (by omega), ?_, by simp⟩
    simp only [varintValue, tailValue, byte]
    omega
  · have left : (v.toNat - 240) >>> 4 = (v.toNat - 240) / 16 := Nat.shiftRight_eq_div_pow ..
    obtain ⟨tail, value, _⟩ := encMore_tail 10 ((v.toNat - 240) / 16)
      (by omega) (by decide)
    have short := tail.length_le (by omega)
    have byte := toNat_or_240 v.toNat
    rw [if_neg small, left]
    refine ⟨.long (by omega) tail, ?_, by simp only [List.length_cons]; omega⟩
    rw [varintValue, byte, value]
    omega

/-- A list is taken apart at the end of the tail it starts with. -/
theorem decMore_eq_some_iff {bs rest : Bytes} {r v : Nat} {value : UInt64} :
    decMore r v bs = some (value, rest) ↔ ∃ s, bs = s ++ rest ∧ Tail s ∧ r + 7 * s.length < 71 ∧
      value = UInt64.ofNat (v + tailValue s * 2 ^ r) := by
  induction bs generalizing r v with
  | nil =>
    simp only [decMore, false_iff, reduceCtorEq]
    rintro ⟨s, parts, tail, _⟩
    exact tail.ne_nil (List.append_eq_nil_iff.mp parts.symm).1
  | cons x bs ih =>
    have digits (s : Bytes) : v + x.toNat <<< r + tailValue s * 2 ^ (r + 7) =
        v + tailValue (x :: s) * 2 ^ r := by
      rw [Nat.shiftLeft_eq, Nat.add_assoc, tailValue, Nat.add_mul, Nat.pow_add, Nat.mul_comm 128,
        Nat.mul_assoc, Nat.mul_comm 128]
    rw [decMore]
    constructor
    · intro returned
      split at returned
      · cases returned
      · split at returned
        · rename_i shift large
          obtain ⟨s, parts, tail, bound, sum⟩ := ih.mp returned
          refine ⟨x :: s, by rw [parts, List.cons_append], .more large tail, ?_, ?_⟩
          · simp only [List.length_cons]
            omega
          · rw [sum, digits]
        · rename_i shift small
          cases returned
          refine ⟨[x], rfl, .last (by omega), by simp only [List.length_singleton]; omega, ?_⟩
          simp [tailValue, Nat.shiftLeft_eq]
    · rintro ⟨s, parts, tail, bound, rfl⟩
      cases tail with
      | @last y small =>
        obtain ⟨rfl, rfl⟩ := List.cons.inj parts
        simp only [List.length_singleton] at bound
        rw [if_neg (by omega), if_neg (by omega)]
        simp [tailValue, Nat.shiftLeft_eq]
      | @more y s large tail =>
        obtain ⟨rfl, rfl⟩ := List.cons.inj parts
        have positive := tail.length_pos
        simp only [List.length_cons] at bound
        rw [if_neg (by omega), if_pos large]
        exact ih.mpr ⟨s, rfl, tail, by omega, by rw [digits]⟩

theorem decVarint_eq_some_iff {bs rest : Bytes} {value : UInt64} :
    decVarint bs = some (value, rest) ↔ ∃ s, bs = s ++ rest ∧ Varint s ∧ s.length ≤ 10 ∧
      value = UInt64.ofNat (varintValue s) := by
  cases bs with
  | nil =>
    simp only [decVarint, false_iff, reduceCtorEq]
    rintro ⟨s, parts, code, _⟩
    exact code.ne_nil (List.append_eq_nil_iff.mp parts.symm).1
  | cons b bs =>
    rw [decVarint]
    constructor
    · intro returned
      split at returned
      · rename_i small
        cases returned
        exact ⟨[b], rfl, .short small, by simp, by simp [varintValue, tailValue]⟩
      · rename_i large
        obtain ⟨s, parts, tail, bound, sum⟩ := decMore_eq_some_iff.mp returned
        refine ⟨b :: s, by rw [parts, List.cons_append], .long (by omega) tail, ?_, ?_⟩
        · simp only [List.length_cons]
          omega
        · rw [sum, varintValue, Nat.mul_comm 16]
          rfl
    · rintro ⟨s, parts, code, bound, rfl⟩
      cases code with
      | @short y small =>
        obtain ⟨rfl, rfl⟩ := List.cons.inj parts
        rw [if_pos small]
        simp [varintValue, tailValue]
      | @long y s large tail =>
        obtain ⟨rfl, rfl⟩ := List.cons.inj parts
        simp only [List.length_cons] at bound
        rw [if_neg (by omega)]
        refine decMore_eq_some_iff.mpr ⟨s, rfl, tail, by omega, ?_⟩
        rw [varintValue, Nat.mul_comm 16]
        rfl

/-- What `dec_varint` returns and where it leaves `off`, with the places it has read
and the amounts it has shifted by. -/
structure Decoded where
  value : UInt64
  off : Nat
  reads : List Nat
  shifts : List Nat
  deriving DecidableEq, Repr

/-- The loop of `dec_varint`, for at most so many rounds. C gives a shift by 64 or more
no meaning; the machines take its amount modulo 64, as `UInt64` does. -/
def decLoop (b : Nat → UInt8) : Nat → UInt64 → Nat → Nat → Option Decoded
  | 0, _, _, _ => none
  | rounds + 1, v, r, off =>
    let v' := v + (b off).toUInt64 <<< UInt64.ofNat r
    if (b off).toNat ≥ 128 then
      (decLoop b rounds v' (r + 7) (off + 1)).map fun d =>
        { d with reads := off :: d.reads, shifts := r :: d.shifts }
    else some ⟨v', off + 1, [off], [r]⟩

/-- `dec_varint`, for at most so many rounds of its loop. -/
def decVarintAt (b : Nat → UInt8) (rounds off : Nat) : Option Decoded :=
  if (b off).toNat < 240 then some ⟨(b off).toUInt64, off + 1, [off], []⟩
  else (decLoop b rounds (b off).toUInt64 4 (off + 1)).map fun d =>
    { d with reads := off :: d.reads }

/-- The memory holds these bytes from `off` on. -/
def Holds (b : Nat → UInt8) (off : Nat) : Bytes → Prop
  | [] => True
  | x :: s => b off = x ∧ Holds b (off + 1) s

theorem holds_append {b : Nat → UInt8} {off : Nat} {s t : Bytes} :
    Holds b off (s ++ t) ↔ Holds b off s ∧ Holds b (off + s.length) t := by
  induction s generalizing off with
  | nil => simp [Holds]
  | cons x s ih =>
    have places : off + 1 + s.length = off + (s.length + 1) := by omega
    simp only [List.cons_append, Holds, ih, and_assoc, List.length_cons, places]

/-- The loop ends where the tail in memory does, and reads and shifts once for each byte. -/
theorem Tail.decLoop_eq {b : Nat → UInt8} {s : Bytes} (tail : Tail s) {rounds r off : Nat}
    {v : UInt64} (held : Holds b off s) (enough : s.length ≤ rounds) :
    ∃ value, decLoop b rounds v r off = some ⟨value, off + s.length,
        List.range' off s.length, List.range' r s.length 7⟩ ∧
      (r + 7 * s.length < 71 → value = v + UInt64.ofNat (tailValue s * 2 ^ r)) := by
  have shifted (x : UInt8) (k : Nat) (small : k < 64) :
      x.toUInt64 <<< UInt64.ofNat k = UInt64.ofNat (x.toNat * 2 ^ k) := by
    apply UInt64.toNat_inj.mp
    simp [UInt64.toNat_shiftLeft, Nat.shiftLeft_eq, Nat.mod_eq_of_lt small]
  induction tail generalizing rounds r off v with
  | @last x small =>
    obtain ⟨rounds, rfl⟩ : ∃ n, rounds = n + 1 := ⟨rounds - 1, by simp at enough; omega⟩
    have byte : b off = x := held.1
    refine ⟨v + x.toUInt64 <<< UInt64.ofNat r, ?_, ?_⟩
    · rw [decLoop, byte, if_neg (by omega)]
      rfl
    · intro bound
      have plain : tailValue [x] = x.toNat := by simp [tailValue]
      simp only [List.length_singleton] at bound
      rw [shifted x r (by omega), plain]
  | @more x s large tail ih =>
    obtain ⟨rounds, rfl⟩ : ∃ n, rounds = n + 1 := ⟨rounds - 1, by simp at enough; omega⟩
    have byte : b off = x := held.1
    have enough' : s.length ≤ rounds := by simpa using enough
    obtain ⟨value, run, sum⟩ := ih (r := r + 7)
      (v := v + x.toUInt64 <<< UInt64.ofNat r) held.2 enough'
    refine ⟨value, ?_, ?_⟩
    · have places : off + 1 + s.length = off + (s.length + 1) := by omega
      rw [decLoop, byte, if_pos large, run, Option.map_some, places]
      rfl
    · intro bound
      have positive := tail.length_pos
      simp only [List.length_cons] at bound
      have digits : x.toNat * 2 ^ r + tailValue s * 2 ^ (r + 7) = tailValue (x :: s) * 2 ^ r := by
        rw [tailValue, Nat.add_mul, Nat.pow_add, Nat.mul_comm 128, Nat.mul_assoc,
          Nat.mul_comm 128]
      rw [sum (by omega), shifted x r (by omega), UInt64.add_assoc, ← UInt64.ofNat_add, digits]

/-- Whatever the loop returns on, a tail in memory was its reason to stop. -/
theorem decLoop_tail {b : Nat → UInt8} {rounds r off : Nat} {v : UInt64} {d : Decoded}
    (returned : decLoop b rounds v r off = some d) :
    ∃ s, Tail s ∧ Holds b off s ∧ s.length ≤ rounds := by
  induction rounds generalizing v r off d with
  | zero => cases returned
  | succ rounds ih =>
    rw [decLoop] at returned
    split at returned
    · rename_i large
      obtain ⟨d', inner, _⟩ := Option.map_eq_some_iff.mp returned
      obtain ⟨s, tail, held, short⟩ := ih inner
      exact ⟨b off :: s, .more large tail, ⟨rfl, held⟩, by simpa using short⟩
    · rename_i small
      exact ⟨[b off], .last (by omega), ⟨rfl, trivial⟩, by simp⟩

/-- `dec_varint` on a varint in memory: it stops behind it, having read its bytes. -/
theorem Varint.decVarintAt_eq {b : Nat → UInt8} {s : Bytes} (code : Varint s) (rounds : Nat)
    {off : Nat} (held : Holds b off s) (enough : s.length ≤ rounds + 1) :
    ∃ value, decVarintAt b rounds off = some ⟨value, off + s.length,
        List.range' off s.length, List.range' 4 (s.length - 1) 7⟩ ∧
      (s.length ≤ 10 → value = UInt64.ofNat (varintValue s)) := by
  cases code with
  | @short x small =>
    have byte : b off = x := held.1
    refine ⟨x.toUInt64, ?_, ?_⟩
    · rw [decVarintAt, byte, if_pos small]
      rfl
    · intro _
      have plain : varintValue [x] = x.toNat := by simp [varintValue, tailValue]
      rw [plain]
      exact UInt64.toNat_inj.mp (by simp)
  | @long x s large tail =>
    have byte : b off = x := held.1
    have enough' : s.length ≤ rounds := by simpa using enough
    obtain ⟨value, run, sum⟩ := tail.decLoop_eq (r := 4) (v := x.toUInt64) held.2 enough'
    refine ⟨value, ?_, ?_⟩
    · have places : off + 1 + s.length = off + (s.length + 1) := by omega
      rw [decVarintAt, byte, if_neg (by omega), run, Option.map_some, places]
      rfl
    · intro short
      simp only [List.length_cons] at short
      have start : x.toUInt64 = UInt64.ofNat x.toNat := UInt64.toNat_inj.mp (by simp)
      rw [sum (by omega), start, ← UInt64.ofNat_add, varintValue, Nat.mul_comm 16]
      rfl

theorem decVarintAt_varint {b : Nat → UInt8} {rounds off : Nat} {d : Decoded}
    (returned : decVarintAt b rounds off = some d) :
    ∃ s, Varint s ∧ Holds b off s ∧ s.length ≤ rounds + 1 := by
  unfold decVarintAt at returned
  split at returned
  · rename_i small
    exact ⟨[b off], .short small, ⟨rfl, trivial⟩, by simp⟩
  · rename_i large
    obtain ⟨d', inner, _⟩ := Option.map_eq_some_iff.mp returned
    obtain ⟨s, tail, held, short⟩ := decLoop_tail inner
    exact ⟨b off :: s, .long (by omega) tail, ⟨rfl, held⟩, by simpa using short⟩

end TransparentOffload.Spop
