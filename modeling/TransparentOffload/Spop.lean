import Mathlib.Algebra.Group.Int.Defs
import Mathlib.Algebra.Group.Nat.Defs
import TransparentOffload.Kernel

set_option autoImplicit false

/- The frames of `spoa_agent.c`. A frame's payload is its type, four bytes of flags,
the stream id and the frame id as SPOP varints, and what the agent does not read. -/
namespace TransparentOffload.Spop

/-- `FT_HAPROXY_HELLO`. -/
def ftHaproxyHello : UInt8 := 1

/-- `FT_HAPROXY_DISCON`. -/
def ftHaproxyDiscon : UInt8 := 2

/-- `FT_NOTIFY`. -/
def ftNotify : UInt8 := 3

/-- `FT_AGENT_HELLO`. -/
def ftAgentHello : UInt8 := 101

/-- `FT_ACK`. -/
def ftAck : UInt8 := 103

/-- The loop of `enc_varint` and the byte after it; a 64-bit value takes less than
ten rounds. -/
def encMore : Nat → Nat → Bytes
  | 0, _ => []
  | rounds + 1, v =>
    if v ≥ 128 then UInt8.ofNat (v ||| 128) :: encMore rounds ((v - 128) >>> 7)
    else [UInt8.ofNat v]

/-- `enc_varint`. -/
def encVarint (v : UInt64) : Bytes :=
  if v.toNat < 240 then [UInt8.ofNat v.toNat]
  else UInt8.ofNat (v.toNat ||| 240) :: encMore 10 ((v.toNat - 240) >>> 4)

/-- The loop of `dec_varint`. The sum is cut to 64 bits at the end; a shift by more
has no meaning in C, and neither has a read past the frame. -/
def decMore : Nat → Nat → Bytes → Option (UInt64 × Bytes)
  | _, _, [] => none
  | r, v, x :: rest =>
    if r ≥ 64 then none
    else if x.toNat ≥ 128 then decMore (r + 7) (v + x.toNat <<< r) rest
    else some (UInt64.ofNat (v + x.toNat <<< r), rest)

/-- `dec_varint`. -/
def decVarint : Bytes → Option (UInt64 × Bytes)
  | [] => none
  | b :: rest => if b.toNat < 240 then some (UInt64.ofNat b.toNat, rest) else decMore 4 b.toNat rest

/-- `htonl`. -/
def htonl (n : Nat) : Bytes :=
  [UInt8.ofNat (n >>> 24), UInt8.ofNat (n >>> 16), UInt8.ofNat (n >>> 8), UInt8.ofNat n]

/-- A payload behind its length. -/
def frame (payload : Bytes) : Bytes := htonl payload.length ++ payload

/-- What `conn_thread` takes from a payload: its type and its two ids. -/
def parse : Bytes → Option (UInt8 × UInt64 × UInt64)
  | type :: _ :: _ :: _ :: _ :: ids =>
    (decVarint ids).bind fun sid => (decVarint sid.2).map fun fid => (type, sid.1, fid.1)
  | _ => none

/-- The payload `send_ack` builds. -/
def ackPayload (sid fid : UInt64) : Bytes :=
  ftAck :: htonl 1 ++ (encVarint sid ++ encVarint fid)

/-- `enc_str`. -/
def encStr (s : String) : Bytes :=
  encVarint (UInt64.ofNat s.toUTF8.size) ++ s.toUTF8.toList

/-- The payload `send_agent_hello` builds. -/
def agentHelloPayload (mfs : UInt64) : Bytes :=
  ftAgentHello :: htonl 1 ++ (encVarint 0 ++ encVarint 0 ++ encStr "version" ++ [0x08] ++
    encStr "2.0" ++ encStr "max-frame-size" ++ [0x03] ++ encVarint mfs ++
    encStr "capabilities" ++ [0x08] ++ encStr "pipelining")

theorem toNat_or_128 (v : Nat) : (UInt8.ofNat (v ||| 128)).toNat = 128 + v % 128 := by
  have low : ∀ b < 256, b ||| 128 = 128 + b % 128 := by decide +kernel
  have cut : (v ||| 128) % 256 = v % 256 ||| 128 := Nat.or_mod_two_pow (n := 8)
  rw [UInt8.toNat_ofNat']
  change (v ||| 128) % 256 = _
  rw [cut, low _ (Nat.mod_lt _ (by decide))]
  omega

theorem toNat_or_240 (v : Nat) : (UInt8.ofNat (v ||| 240)).toNat = 240 + v % 16 := by
  have low : ∀ b < 256, b ||| 240 = 240 + b % 16 := by decide +kernel
  have cut : (v ||| 240) % 256 = v % 256 ||| 240 := Nat.or_mod_two_pow (n := 8)
  rw [UInt8.toNat_ofNat']
  change (v ||| 240) % 256 = _
  rw [cut, low _ (Nat.mod_lt _ (by decide))]
  omega

theorem toNat_small {v : Nat} (small : v < 256) : (UInt8.ofNat v).toNat = v := by
  rw [UInt8.toNat_ofNat']
  exact Nat.mod_eq_of_lt small

/-- The loops invert each other as long as the value fits behind the shift. -/
theorem decMore_encMore {rounds v r : Nat} (enough : v < 128 ^ rounds) (some_ : 0 < rounds)
    (shift : r < 64) (fits : v * 2 ^ r < 2 ^ 64) (front : Nat) (rest : Bytes) :
    decMore r front (encMore rounds v ++ rest) = some (UInt64.ofNat (front + v * 2 ^ r), rest) := by
  induction rounds generalizing v r front with
  | zero => omega
  | succ rounds ih =>
    unfold encMore
    by_cases more : v ≥ 128
    · have high : 128 * 2 ^ r < 2 ^ 64 :=
        Nat.lt_of_le_of_lt (Nat.mul_le_mul_right _ more) fits
      have shift' : r + 7 < 64 := by
        have power : 2 ^ (7 + r) < 2 ^ 64 := by rwa [Nat.pow_add]
        have := (Nat.pow_lt_pow_iff_right (by decide)).mp power
        omega
      have left : (v - 128) >>> 7 = (v - 128) / 128 := Nat.shiftRight_eq_div_pow ..
      have value : (128 + v % 128) * 2 ^ r + (v - 128) / 128 * 2 ^ (r + 7) = v * 2 ^ r := by
        rw [Nat.pow_add, Nat.mul_comm (2 ^ r), ← Nat.mul_assoc, ← Nat.add_mul]
        congr 1
        omega
      have enough' : (v - 128) / 128 < 128 ^ rounds := by
        rw [Nat.pow_succ] at enough
        omega
      have some' : 0 < rounds := by
        rcases Nat.eq_zero_or_pos rounds with rfl | positive
        · simp at enough
          omega
        · exact positive
      have fits' : (v - 128) / 128 * 2 ^ (r + 7) < 2 ^ 64 := by omega
      rw [if_pos more, List.cons_append, decMore, if_neg (by omega), toNat_or_128,
        if_pos (by omega), left, ih enough' some' shift' fits', Nat.shiftLeft_eq, Nat.add_assoc,
        value]
    · have byte := toNat_small (show v < 256 by omega)
      rw [if_neg more, List.singleton_append, decMore, if_neg (by omega), byte, if_neg more,
        Nat.shiftLeft_eq]

/-- An id survives the agent: what is encoded into a frame is read out of it. -/
theorem decVarint_encVarint (v : UInt64) (rest : Bytes) :
    decVarint (encVarint v ++ rest) = some (v, rest) := by
  have below : v.toNat < 2 ^ 64 := v.toNat_lt
  unfold encVarint
  by_cases small : v.toNat < 240
  · have byte := toNat_small (show v.toNat < 256 by omega)
    rw [if_pos small, List.singleton_append, decVarint, byte, if_pos small, UInt64.ofNat_toNat]
  · have left : (v.toNat - 240) >>> 4 = (v.toNat - 240) / 16 := Nat.shiftRight_eq_div_pow ..
    have enough : (v.toNat - 240) / 16 < 128 ^ 10 := by omega
    have fits : (v.toNat - 240) / 16 * 2 ^ 4 < 2 ^ 64 := by omega
    have value : 240 + v.toNat % 16 + (v.toNat - 240) / 16 * 2 ^ 4 = v.toNat := by omega
    rw [if_neg small, List.cons_append, decVarint, toNat_or_240, if_neg (by omega), left,
      decMore_encMore enough (by decide) (by decide) fits, value, UInt64.ofNat_toNat]

theorem parse_ack (sid fid : UInt64) : parse (ackPayload sid fid) = some (ftAck, sid, fid) := by
  have second := decVarint_encVarint fid []
  rw [List.append_nil] at second
  unfold ackPayload htonl parse
  dsimp only [List.cons_append, List.nil_append]
  rw [decVarint_encVarint, Option.bind_some, second, Option.map_some]

end TransparentOffload.Spop
