import TransparentOffload.AesPermutation
import TransparentOffload.Lib.Run

set_option autoImplicit false

/- `batch_demo`: the same messages encrypted by a launch for each of them, on a stream
each, and by one launch over all of them. An array is a function of the offset. -/
namespace TransparentOffload.BatchDemo

open Aes

/-- `key`. -/
def key : Bytes := (List.range 16).map fun i => UInt8.ofNat (i * 7 + 1)

/-- `cudaMemcpyAsync` of `n` bytes between two arrays, from the same offset in both. -/
def memcpyAsync (dst src : Nat → UInt8) (off n : Nat) : Nat → UInt8 :=
  fun k => if off ≤ k ∧ k < off + n then src k else dst k

/-- `aes_ctr` on `nb` blocks from an offset on. -/
def aesCtr (rk : Bytes) (data : Nat → UInt8) (off nb base : Nat) : Nat → UInt8 :=
  fun k => if off ≤ k ∧ (k - off) / 16 < nb then data k ^^^ keystream rk base (k - off) else data k

/-- The two arrays, and how many of its three operations each stream has executed. -/
structure Arrays where
  h : Nat → UInt8
  d : Nat → UInt8
  done : Nat → Nat

/-- How the arrays are when the requests are issued. -/
def start (plain d : Nat → UInt8) : Arrays := ⟨plain, d, fun _ => 0⟩

/-- The stream of request `i` of `B` executes its next operation. -/
def execute (rk : Bytes) (msg B : Nat) (s : Arrays) (i : Nat) : Option Arrays :=
  if i < B then
    match s.done i with
    | 0 => some { s with
        d := memcpyAsync s.d s.h (i * msg) msg, done := Function.update s.done i 1 }
    | 1 => some { s with
        d := aesCtr rk s.d (i * msg) (msg / 16) 0, done := Function.update s.done i 2 }
    | 2 => some { s with
        h := memcpyAsync s.h s.d (i * msg) msg, done := Function.update s.done i 3 }
    | _ => none
  else none

/-- The three operations of the fused launch. -/
def fused (rk : Bytes) (msg B : Nat) (plain d : Nat → UInt8) : Nat → UInt8 :=
  let tot := B * msg
  memcpyAsync plain (aesCtr rk (memcpyAsync d plain 0 tot) 0 (tot / 16) 0) 0 tot

/-- The range of request `i` holds what its stream has made of it so far. -/
def Progress (rk : Bytes) (msg : Nat) (plain : Nat → UInt8) (s : Arrays) : Prop :=
  ∀ i k, k / msg = i →
    (s.done i ≤ 2 → s.h k = plain k) ∧ (s.done i = 1 → s.d k = plain k) ∧
      (s.done i = 2 → s.d k = plain k ^^^ keystream rk 0 (k - i * msg)) ∧
      (s.done i = 3 → s.h k = plain k ^^^ keystream rk 0 (k - i * msg)) ∧ s.done i ≤ 3

/-- The range of a request, by division. -/
theorem range_iff {msg i k : Nat} (positive : 0 < msg) :
    i * msg ≤ k ∧ k < i * msg + msg ↔ k / msg = i := by
  have next : i * msg + msg = (i + 1) * msg := by rw [Nat.add_mul, Nat.one_mul]
  rw [next, ← Nat.le_div_iff_mul_le positive, ← Nat.div_lt_iff_lt_mul positive]
  omega

theorem memcpyAsync_range {dst src : Nat → UInt8} {msg i k : Nat} (positive : 0 < msg) :
    memcpyAsync dst src (i * msg) msg k = if k / msg = i then src k else dst k := by
  simp only [memcpyAsync, range_iff positive]

theorem aesCtr_range {rk : Bytes} {data : Nat → UInt8} {msg i k : Nat} (positive : 0 < msg)
    (blocks : msg % 16 = 0) :
    aesCtr rk data (i * msg) (msg / 16) 0 k =
      if k / msg = i then data k ^^^ keystream rk 0 (k - i * msg) else data k := by
  have block : (k - i * msg) / 16 < msg / 16 ↔ k - i * msg < msg := by omega
  have inside : i * msg ≤ k ∧ (k - i * msg) / 16 < msg / 16 ↔ k / msg = i := by
    rw [← range_iff positive, block]
    omega
  simp only [aesCtr, inside]

/-- A stream writes in the range of its request only. -/
theorem Progress.execute {rk : Bytes} {msg B i : Nat} {plain : Nat → UInt8} {s t : Arrays}
    (positive : 0 < msg) (blocks : msg % 16 = 0) (before : Progress rk msg plain s)
    (taken : execute rk msg B s i = some t) : Progress rk msg plain t := by
  unfold BatchDemo.execute at taken
  split at taken
  · intro j k place
    obtain ⟨untouched, copied, masked, returned, three⟩ := before j k place
    have range : k / msg = i ↔ j = i := by rw [place]
    by_cases own : j = i
    · subst own
      split at taken <;> cases taken <;> rename_i stage
      · have plainHere := untouched (by omega)
        simp [memcpyAsync_range positive, place, plainHere]
      · have plainHere := copied stage
        have front := untouched (by omega)
        simp [aesCtr_range positive blocks, place, plainHere, front]
      · have maskedHere := masked stage
        simp [memcpyAsync_range positive, place, maskedHere]
    · have outside : k / msg ≠ i := fun here => own (range.mp here)
      split at taken <;> cases taken
      · simp only [memcpyAsync_range positive, if_neg outside, Function.update_of_ne own]
        exact ⟨untouched, copied, masked, returned, three⟩
      · simp only [aesCtr_range positive blocks, if_neg outside, Function.update_of_ne own]
        exact ⟨untouched, copied, masked, returned, three⟩
      · simp only [memcpyAsync_range positive, if_neg outside, Function.update_of_ne own]
        exact ⟨untouched, copied, masked, returned, three⟩
  · cases taken

theorem Progress.start {rk : Bytes} {msg : Nat} (plain d : Nat → UInt8) :
    Progress rk msg plain (start plain d) := by
  intro i k _
  simp [BatchDemo.start]

/-- However the streams take turns, each request ends with its own key stream. -/
theorem perRequest_eq {rk : Bytes} {msg B : Nat} {plain d : Nat → UInt8} {acts : List Nat}
    {s : Arrays} (positive : 0 < msg) (blocks : msg % 16 = 0)
    (reached : Machine.run (execute rk msg B) (start plain d) acts = some s)
    (all : ∀ i < B, s.done i = 3) {k : Nat} (inside : k < B * msg) :
    s.h k = plain k ^^^ keystream rk 0 (k % msg) := by
  have progress : Progress rk msg plain s :=
    Machine.invariant_reached (fun _ _ _ before taken => before.execute positive blocks taken)
      (Progress.start plain d) reached
  have request : k / msg < B := Nat.div_lt_of_lt_mul (by rwa [Nat.mul_comm])
  obtain ⟨_, _, _, returned, _⟩ := progress (k / msg) k rfl
  have offset : k - k / msg * msg = k % msg := by
    have whole := Nat.div_add_mod' k msg
    omega
  rw [returned (all _ request), offset]

theorem fused_eq {rk : Bytes} {msg B : Nat} {plain d : Nat → UInt8} (blocks : msg % 16 = 0)
    {k : Nat} (inside : k < B * msg) :
    fused rk msg B plain d k = plain k ^^^ keystream rk 0 k := by
  have multiple : B * msg % 16 = 0 := by rw [Nat.mul_mod, blocks, Nat.mul_zero, Nat.zero_mod]
  have block : k / 16 < B * msg / 16 := by omega
  simp [fused, memcpyAsync, aesCtr, inside, block]

/-- The fused launch counts on where each request would start again, so its outputs are
those of the requests just when there is one request. -/
theorem fused_eq_perRequest_iff (roundKeyBytes : Bytes) (whole : roundKeyBytes.length = 176)
    (msg B : Nat) (positive : 0 < msg) (blocks : msg % 16 = 0) (request : 0 < B)
    (fits : B * msg < 2 ^ 64) (plain d d' : Nat → UInt8) (acts : List Nat) (s : Arrays)
    (reached : Machine.run (execute roundKeyBytes msg B) (start plain d) acts = some s)
    (all : ∀ i < B, s.done i = 3) :
    (∀ k < B * msg, fused roundKeyBytes msg B plain d' k = s.h k) ↔ B = 1 := by
  have outputs (k : Nat) (inside : k < B * msg) :
      fused roundKeyBytes msg B plain d' k = s.h k ↔
        keystream roundKeyBytes 0 k = keystream roundKeyBytes 0 (k % msg) := by
    rw [fused_eq blocks inside, perRequest_eq positive blocks reached all inside]
    exact UInt8.xor_right_inj (plain k)
  constructor
  · intro same
    by_contra several
    have two : 2 * msg ≤ B * msg := Nat.mul_le_mul_right msg (by omega)
    obtain ⟨j, low, differ⟩ := keystream_ne whole 0 (msg / 16) (by decide) (by omega) (by omega)
    have second : (msg + j) / 16 = msg / 16 := by omega
    have place : (msg + j) % 16 = j := by omega
    have wrapped : (msg + j) % msg = j := by
      rw [Nat.add_mod_left]
      exact Nat.mod_eq_of_lt (by omega)
    have here := (outputs (msg + j) (by omega)).mp (same (msg + j) (by omega))
    rw [wrapped] at here
    apply differ
    rw [← here]
    simp only [keystream, second, place, Nat.div_eq_of_lt low, Nat.mod_eq_of_lt low, Nat.zero_add,
      Nat.add_zero]
  · rintro rfl k inside
    have single : k % msg = k := Nat.mod_eq_of_lt (by omega)
    rw [outputs k inside, single]

/-- The streams of the 64 requests take turns. -/
def inTurns : List Nat := (List.replicate 3 (List.range 64)).flatten

/-- `batch_demo` with `B` 64 and `MSG` 256, behind all its streams. -/
def afterRequests : Arrays :=
  (Machine.run (execute (keyExpand key) 256 64) (start (fun _ => 0xAB) fun _ => 0) inTurns).get
    (by decide +kernel)

theorem afterRequests_reached :
    Machine.run (execute (keyExpand key) 256 64) (start (fun _ => 0xAB) fun _ => 0) inTurns =
      some afterRequests := (Option.some_get _).symm

theorem fused_eq_perRequest_iff_demo :
    (∀ k < 64 * 256,
      fused (keyExpand key) 256 64 (fun _ => 0xAB) (fun _ => 0) k = afterRequests.h k) ↔ 64 = 1 :=
  fused_eq_perRequest_iff (keyExpand key) (length_keyExpand rfl) 256 64 (by decide) rfl (by decide)
    (by decide) (fun _ => 0xAB) (fun _ => 0) (fun _ => 0) inTurns afterRequests
    afterRequests_reached (by decide +kernel)

/-- The first byte of the second message is masked with another byte. -/
theorem second_message_differs :
    Machine.run (execute (keyExpand key) 256 64) (start (fun _ => 0xAB) fun _ => 0) inTurns =
        some afterRequests ∧ (∀ i < 64, afterRequests.done i = 3) ∧
      fused (keyExpand key) 256 64 (fun _ => 0xAB) (fun _ => 0) 256 ≠ afterRequests.h 256 :=
  ⟨afterRequests_reached, by decide +kernel, by decide +kernel⟩

end TransparentOffload.BatchDemo
