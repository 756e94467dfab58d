import TransparentOffload.AesPermutation
import TransparentOffload.GpuSlots

set_option autoImplicit false

/- The transform of `libaccel` against that of `libaccel_gpu`. The first one is OpenSSL's
AES-128 in counter mode over all the bytes, the second one goes through a slot of `SZ`
bytes. -/
namespace TransparentOffload

namespace LibAccel

/-- A counter as a block of sixteen bytes, big-endian. -/
def counterBlock (c : Nat) : Bytes :=
  (List.range 16).map fun i => UInt8.ofNat (c >>> (8 * (15 - i)))

/-- The counter that starts in the vector `iv`. -/
def counterOf (iv : Bytes) : Nat := iv.foldl (fun c b => c * 256 + b.toNat) 0

/-- AES-128 in counter mode as documented: each block is masked with the cipher of the
counter, which goes on by one from block to block. -/
def aes128Ctr (key iv data : Bytes) : Bytes :=
  data.mapIdx fun k b =>
    b ^^^ (Fips197.encrypt key (counterBlock (counterOf iv + k / 16))).getD (k % 16) 0

/-- `aes_ctr` with `EVP_aes_128_ctr` as given, on the first `n` bytes of a buffer. -/
def aesCtr (evp : Bytes → Bytes → Bytes → Bytes) (b : Bytes) (n : Nat) : Bytes :=
  evp LibAccelGpu.key (List.replicate 16 0) (b.take n) ++ b.drop n

end LibAccel

namespace LibAccelGpu

open Aes

/-- `SZ` after `ensure`, from what `atoi` makes of `ACCEL_AES_BYTES` where that is set. -/
def ensureSz : Option Int → Nat
  | none => 1048576
  | some e =>
    let sz := if e < 16 then 16 else e
    (sz - sz % 16).toNat

theorem ensureSz_bounds (e : Option Int) : 16 ≤ ensureSz e ∧ ensureSz e % 16 = 0 := by
  cases e with
  | none => decide
  | some e =>
    unfold ensureSz
    dsimp only
    split <;> omega

/-- What `ensure` sets up. -/
def ensure (e : Option Int) : Config := ⟨ensureSz e, (ensureSz_bounds e).1, (ensureSz_bounds e).2⟩

/-- The key stream of `aes_ctr` under `KEY` from counter 0. -/
def keyByte (k : Nat) : UInt8 := keystream (keyExpand key) 0 k

theorem counterBlock_eq {c : Nat} (fits : c < 2 ^ 64) :
    LibAccel.counterBlock c = counterBlock c := by
  have high (p : Nat) (above : 64 ≤ p) : c >>> p = 0 := by
    rw [Nat.shiftRight_eq_div_pow]
    apply Nat.div_eq_of_lt
    exact Nat.lt_of_lt_of_le fits (Nat.pow_le_pow_right (by decide) above)
  have sixteen : List.range 16 = [0, 1, 2, 3, 4, 5, 6, 7, 8, 9, 10, 11, 12, 13, 14, 15] := rfl
  have eight : List.range 8 = [0, 1, 2, 3, 4, 5, 6, 7] := rfl
  simp [LibAccel.counterBlock, counterBlock, sixteen, eight, high, List.replicate]

/-- The CPU masks with the same key stream, as far as an `int` can count. -/
theorem aesCtr_cpu (evp : Bytes → Bytes → Bytes → Bytes)
    (documented : ∀ key iv data, key.length = 16 → iv.length = 16 →
      evp key iv data = LibAccel.aes128Ctr key iv data) (b : Bytes) (n : Nat) (int : n < 2 ^ 31) :
    LibAccel.aesCtr evp b n = (b.take n).mapIdx (fun k x => x ^^^ keyByte k) ++ b.drop n := by
  have zero : LibAccel.counterOf (List.replicate 16 0) = 0 := by decide
  have size (c : Nat) : (counterBlock c).length = 16 := by simp [counterBlock]
  have masked : LibAccel.aes128Ctr key (List.replicate 16 0) (b.take n) =
      (b.take n).mapIdx fun k x => x ^^^ keyByte k := by
    apply List.ext_getElem?
    intro k
    rw [LibAccel.aes128Ctr, List.getElem?_mapIdx, List.getElem?_mapIdx, zero, Nat.zero_add]
    by_cases inside : k < n
    · rw [counterBlock_eq (by omega), ← aesEnc_keyExpand rfl (size (k / 16)), keyByte, keystream,
        Nat.zero_add]
    · rw [List.getElem?_take, if_neg inside, Option.map_none, Option.map_none]
  rw [LibAccel.aesCtr, documented key (List.replicate 16 0) _ rfl rfl, masked]

/-- The GPU's launch masks all of a slot. -/
theorem transform_eq (c : Config) {content : Bytes} (short : content.length ≤ c.sz) :
    transform c content = content.mapIdx fun k x => x ^^^ keyByte k := by
  have blocks := c.blocks
  apply List.ext_getElem?
  intro k
  rw [transform, Aes.aesCtr, List.getElem?_mapIdx, List.getElem?_mapIdx]
  by_cases inside : k < content.length
  · have block : k / 16 < c.sz / 16 := by omega
    simp only [if_pos block, keyByte]
  · rw [List.getElem?_eq_none (by omega)]
    rfl

/-- What the call that copies a result does to the memory. -/
theorem delivered {c : Config} {s t : State} {id : Nat} {a : GpuAct} (staged : Staged c s)
    (last : a = .copyOut id ∨ a = .finish id) (returns : step c s a = some t) :
    t.mem = Function.update s.mem (s.requests id).buf
      (memcpy (s.mem (s.requests id).buf) (transform c (s.requests id).content)) := by
  rcases last with rfl | rfl
  · rw [step] at returns
    split at returns
    · rename_i below
      obtain ⟨out, found, same⟩ := Option.map_eq_some_iff.mp returns
      obtain ⟨_, _, rfl⟩ := doneCopy_spec staged below found
      rw [← same]
      rfl
    · cases returns
  · rw [step] at returns
    split at returns
    · rename_i below
      obtain ⟨out, found, same⟩ := Option.map_eq_some_iff.mp returns
      obtain ⟨_, _, rfl⟩ := encryptCopy_spec staged below found
      rw [← same]
      rfl
    · cases returns

/-- A front masked by one backend and a longer one masked by the other. -/
theorem masked_eq_iff {b : Bytes} {cp n : Nat} (shorter : cp ≤ n) (long : n ≤ b.length) :
    (b.take cp).mapIdx (fun k x => x ^^^ keyByte k) ++ b.drop cp =
        (b.take n).mapIdx (fun k x => x ^^^ keyByte k) ++ b.drop n ↔
      ∀ k, cp ≤ k → k < n → keyByte k = 0 := by
  have entry (m : Nat) (below : m ≤ b.length) (k : Nat) (inside : k < b.length) :
      ((b.take m).mapIdx (fun k x => x ^^^ keyByte k) ++ b.drop m)[k]? =
        some (if k < m then b[k] ^^^ keyByte k else b[k]) := by
    have front : ((b.take m).mapIdx fun k x => x ^^^ keyByte k).length = m := by
      rw [List.length_mapIdx, List.length_take]
      omega
    by_cases masked : k < m
    · rw [List.getElem?_append_left (by omega), List.getElem?_mapIdx, List.getElem?_take,
        if_pos masked, if_pos masked, List.getElem?_eq_getElem inside]
      rfl
    · have place : m + (k - m) = k := by omega
      rw [List.getElem?_append_right (by omega), front, List.getElem?_drop, place, if_neg masked,
        List.getElem?_eq_getElem inside]
  have size (m : Nat) (below : m ≤ b.length) :
      ((b.take m).mapIdx (fun k x => x ^^^ keyByte k) ++ b.drop m).length = b.length := by
    rw [List.length_append, List.length_mapIdx, List.length_take, List.length_drop]
    omega
  constructor
  · intro same k low high
    have here := congrArg (·[k]?) same
    rw [entry cp (by omega) k (by omega), entry n long k (by omega), if_neg (by omega),
      if_pos high, Option.some.injEq] at here
    exact (UInt8.xor_right_inj b[k]).mp (by rw [UInt8.xor_zero]; exact here.symm)
  · intro zero
    apply List.ext_getElem?
    intro k
    by_cases inside : k < b.length
    · rw [entry cp (by omega) k inside, entry n long k inside]
      by_cases first : k < cp
      · rw [if_pos first, if_pos (by omega)]
      · by_cases second : k < n
        · rw [if_neg first, if_pos second, zero k (by omega) second, UInt8.xor_zero]
        · rw [if_neg first, if_neg second]
    · rw [List.getElem?_eq_none (by rw [size cp (by omega)]; omega),
        List.getElem?_eq_none (by rw [size n long]; omega)]

/-- Two whole blocks of the key stream are never both zero. -/
theorem keyByte_ne_zero (c : Nat) (fits : c + 1 < 2 ^ 64) :
    ∃ k, 16 * c ≤ k ∧ k < 16 * c + 32 ∧ keyByte k ≠ 0 := by
  by_contra zero
  have none_ (k : Nat) (low : 16 * c ≤ k) (high : k < 16 * c + 32) : keyByte k = 0 := by
    by_contra other
    exact zero ⟨k, low, high, other⟩
  have size : (keyExpand key).length = 176 := length_keyExpand rfl
  obtain ⟨j, inside, differ⟩ := keystream_ne size c (c + 1) (by omega) fits (by omega)
  have byte (b : Nat) : keystream (keyExpand key) b j = keyByte (16 * b + j) := by
    have front : j / 16 = 0 := Nat.div_eq_of_lt inside
    have block : (16 * b + j) / 16 = b := by omega
    have place : (16 * b + j) % 16 = j := by omega
    simp only [keyByte, keystream, front, block, place, Nat.mod_eq_of_lt inside, Nat.add_zero,
      Nat.zero_add]
  apply differ
  rw [byte, byte, none_ _ (by omega) (by omega), none_ _ (by omega) (by omega)]

/-- From 32 bytes behind `SZ` on, some byte behind `SZ` has a mask: such a buffer never
comes back as the CPU backend leaves it. -/
theorem masked_behind_slot (e : Option Int) (n : Nat) (int : n < 2 ^ 31)
    (long : ensureSz e + 32 ≤ n) : ¬ ∀ k, ensureSz e ≤ k → k < n → keyByte k = 0 := by
  intro zero
  have blocks := (ensureSz_bounds e).2
  obtain ⟨k, low, high, differ⟩ := keyByte_ne_zero (ensureSz e / 16) (by omega)
  exact differ (zero k (by omega) (by omega))

/-- In any run in which nobody copies into a slot that is in use, the call that returns a
result changes the front of its own buffer only, and leaves there what the CPU backend
leaves just when no byte behind the first `SZ` has a mask. -/
theorem gpu_eq_cpu_iff (evp : Bytes → Bytes → Bytes → Bytes)
    (documented : ∀ key iv data, key.length = 16 → iv.length = 16 →
      evp key iv data = LibAccel.aes128Ctr key iv data)
    (e : Option Int) (mem : Buf → Bytes) (acts : List GpuAct) (s t : State) (id : Nat) (a : GpuAct)
    (alone : Machine.Guarded (step (ensure e)) AloneOnSlot (.init mem) acts)
    (reached : Machine.run (step (ensure e)) (.init mem) acts = some s)
    (last : a = .copyOut id ∨ a = .finish id) (returns : step (ensure e) s a = some t)
    (int : (s.requests id).n < 2 ^ 31)
    (whole : (s.requests id).n ≤ (s.mem (s.requests id).buf).length)
    (unchanged : (s.mem (s.requests id).buf).take (State.cp (ensure e) (s.requests id).n) =
      (s.requests id).content) :
    (∀ b, b ≠ (s.requests id).buf → t.mem b = s.mem b) ∧
      (t.mem (s.requests id).buf).drop (s.requests id).n =
        (s.mem (s.requests id).buf).drop (s.requests id).n ∧
      (t.mem (s.requests id).buf =
          LibAccel.aesCtr evp (s.mem (s.requests id).buf) (s.requests id).n ↔
        ∀ k, ensureSz e ≤ k → k < (s.requests id).n → keyByte k = 0) := by
  have staged : Staged (ensure e) s :=
    Machine.invariant_run (fun _ _ _ staged alone taken => step_staged staged alone taken)
      (init_staged (ensure e) mem) alone reached
  have memory := delivered staged last returns
  generalize (s.requests id).buf = buf at *
  generalize (s.requests id).n = n at *
  have short : State.cp (ensure e) n ≤ n := Nat.min_le_left ..
  have fits : State.cp (ensure e) n ≤ (ensure e).sz := Nat.min_le_right ..
  have length : (s.requests id).content.length = State.cp (ensure e) n := by
    rw [← unchanged, List.length_take]
    omega
  have here : t.mem buf =
      ((s.mem buf).take (State.cp (ensure e) n)).mapIdx (fun k x => x ^^^ keyByte k) ++
        (s.mem buf).drop (State.cp (ensure e) n) := by
    rw [memory, Function.update_self, transform_eq _ (by omega), memcpy, List.length_mapIdx, length,
      unchanged]
  refine ⟨?_, ?_, ?_⟩
  · intro b other
    rw [memory, Function.update_of_ne other]
  · have front : (((s.mem buf).take (State.cp (ensure e) n)).mapIdx
        fun k x => x ^^^ keyByte k).length = State.cp (ensure e) n := by
      rw [List.length_mapIdx, unchanged, length]
    have rest : State.cp (ensure e) n + (n - State.cp (ensure e) n) = n := by omega
    rw [here, List.drop_append, front, List.drop_eq_nil_of_le (by omega), List.nil_append,
      List.drop_drop, rest]
  · rw [here, aesCtr_cpu evp documented _ _ int, masked_eq_iff short whole]
    have bound : State.cp (ensure e) n = min n (ensureSz e) := rfl
    constructor
    · intro zero k low high
      exact zero k (by omega) high
    · intro zero k low high
      exact zero k (by omega) high

/-- A caller that waits for the encryption of `n` bytes, up to its copy. -/
def oneCaller (n : Nat) : List GpuAct :=
  [.submit 0 n true, .ready 0 unset unset] ++ fill 0 ++ [.synchronize 0] ++
    List.replicate 4 (.device 0)

def zeros (_ : Buf) : Bytes := List.replicate 32 0

/-- The caller in front of its copy, and behind it, for all of its 32 bytes. -/
def beforeCopy : State :=
  (Machine.run (step (ensure (some 16))) (.init zeros) (oneCaller 32)).get (by decide +kernel)

def afterCopy : State := (step (ensure (some 16)) beforeCopy (.finish 0)).get (by decide +kernel)

theorem gpu_eq_cpu_iff_oneCaller :
    (∀ b, b ≠ 0 → afterCopy.mem b = beforeCopy.mem b) ∧
      (afterCopy.mem 0).drop 32 = (beforeCopy.mem 0).drop 32 ∧
      (afterCopy.mem 0 = LibAccel.aesCtr LibAccel.aes128Ctr (beforeCopy.mem 0) 32 ↔
        ∀ k, 16 ≤ k → k < 32 → keyByte k = 0) :=
  gpu_eq_cpu_iff LibAccel.aes128Ctr (fun _ _ _ _ _ => rfl) (some 16) zeros (oneCaller 32) beforeCopy
    afterCopy 0 (.finish 0) (by decide +kernel) (Option.some_get _).symm (Or.inr rfl)
    (Option.some_get _).symm (by decide +kernel) (by decide +kernel) (by decide +kernel)

/-- With slots of sixteen bytes the second half of 32 bytes comes back as plaintext. -/
theorem second_half_plain :
    Machine.run (step (ensure (some 16))) (.init zeros) (oneCaller 32 ++ [.finish 0]) =
        some afterCopy ∧
      (afterCopy.mem 0).drop 16 = List.replicate 16 0 ∧
      afterCopy.mem 0 ≠ LibAccel.aesCtr LibAccel.aes128Ctr (zeros 0) 32 := by
  have first : Machine.run (step (ensure (some 16))) (.init zeros) (oneCaller 32) =
      some beforeCopy := (Option.some_get _).symm
  have second : step (ensure (some 16)) beforeCopy (.finish 0) = some afterCopy :=
    (Option.some_get _).symm
  have plain : (afterCopy.mem 0).drop 16 = List.replicate 16 0 := by decide +kernel
  refine ⟨(Machine.run_snoc first _).trans second, plain, ?_⟩
  intro same
  have masked := aesCtr_cpu LibAccel.aes128Ctr (fun _ _ _ _ _ => rfl) (zeros 0) 32 (by decide)
  rw [same, masked] at plain
  revert plain
  decide +kernel

end LibAccelGpu

end TransparentOffload
