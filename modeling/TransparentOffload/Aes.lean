import TransparentOffload.Kernel

set_option autoImplicit false

/- `aes_dev.cuh`: AES-128 and the counter-mode kernel of the GPU accelerator. A state
of sixteen bytes is a list in the order of the source's array. -/
namespace TransparentOffload.Aes

/-- `SBOX`. -/
def sbox : Bytes :=
  [0x63, 0x7c, 0x77, 0x7b, 0xf2, 0x6b, 0x6f, 0xc5, 0x30, 0x01, 0x67, 0x2b,
   0xfe, 0xd7, 0xab, 0x76, 0xca, 0x82, 0xc9, 0x7d, 0xfa, 0x59, 0x47, 0xf0,
   0xad, 0xd4, 0xa2, 0xaf, 0x9c, 0xa4, 0x72, 0xc0, 0xb7, 0xfd, 0x93, 0x26,
   0x36, 0x3f, 0xf7, 0xcc, 0x34, 0xa5, 0xe5, 0xf1, 0x71, 0xd8, 0x31, 0x15,
   0x04, 0xc7, 0x23, 0xc3, 0x18, 0x96, 0x05, 0x9a, 0x07, 0x12, 0x80, 0xe2,
   0xeb, 0x27, 0xb2, 0x75, 0x09, 0x83, 0x2c, 0x1a, 0x1b, 0x6e, 0x5a, 0xa0,
   0x52, 0x3b, 0xd6, 0xb3, 0x29, 0xe3, 0x2f, 0x84, 0x53, 0xd1, 0x00, 0xed,
   0x20, 0xfc, 0xb1, 0x5b, 0x6a, 0xcb, 0xbe, 0x39, 0x4a, 0x4c, 0x58, 0xcf,
   0xd0, 0xef, 0xaa, 0xfb, 0x43, 0x4d, 0x33, 0x85, 0x45, 0xf9, 0x02, 0x7f,
   0x50, 0x3c, 0x9f, 0xa8, 0x51, 0xa3, 0x40, 0x8f, 0x92, 0x9d, 0x38, 0xf5,
   0xbc, 0xb6, 0xda, 0x21, 0x10, 0xff, 0xf3, 0xd2, 0xcd, 0x0c, 0x13, 0xec,
   0x5f, 0x97, 0x44, 0x17, 0xc4, 0xa7, 0x7e, 0x3d, 0x64, 0x5d, 0x19, 0x73,
   0x60, 0x81, 0x4f, 0xdc, 0x22, 0x2a, 0x90, 0x88, 0x46, 0xee, 0xb8, 0x14,
   0xde, 0x5e, 0x0b, 0xdb, 0xe0, 0x32, 0x3a, 0x0a, 0x49, 0x06, 0x24, 0x5c,
   0xc2, 0xd3, 0xac, 0x62, 0x91, 0x95, 0xe4, 0x79, 0xe7, 0xc8, 0x37, 0x6d,
   0x8d, 0xd5, 0x4e, 0xa9, 0x6c, 0x56, 0xf4, 0xea, 0x65, 0x7a, 0xae, 0x08,
   0xba, 0x78, 0x25, 0x2e, 0x1c, 0xa6, 0xb4, 0xc6, 0xe8, 0xdd, 0x74, 0x1f,
   0x4b, 0xbd, 0x8b, 0x8a, 0x70, 0x3e, 0xb5, 0x66, 0x48, 0x03, 0xf6, 0x0e,
   0x61, 0x35, 0x57, 0xb9, 0x86, 0xc1, 0x1d, 0x9e, 0xe1, 0xf8, 0x98, 0x11,
   0x69, 0xd9, 0x8e, 0x94, 0x9b, 0x1e, 0x87, 0xe9, 0xce, 0x55, 0x28, 0xdf,
   0x8c, 0xa1, 0x89, 0x0d, 0xbf, 0xe6, 0x42, 0x68, 0x41, 0x99, 0x2d, 0x0f,
   0xb0, 0x54, 0xbb, 0x16]

/-- The round constants of `key_expand`. -/
def rc : Bytes := [1, 2, 4, 8, 16, 32, 64, 128, 0x1b, 0x36]

def sub (x : UInt8) : UInt8 := sbox.getD x.toNat 0

def xorBytes (xs ys : Bytes) : Bytes := List.zipWith (· ^^^ ·) xs ys

/-- The temporary of `key_expand` in round `i`: the word before, rotated and
substituted at the start of each round key. -/
def keyTemp (i : Nat) : Bytes → Bytes
  | [t0, t1, t2, t3] =>
    if i % 4 = 0 then [sub t1 ^^^ rc.getD (i / 4 - 1) 0, sub t2, sub t3, sub t0]
    else [t0, t1, t2, t3]
  | other => other

/-- One round of `key_expand`, on the words so far. -/
def keyWord (words : List Bytes) (i : Nat) : List Bytes :=
  words ++ [xorBytes (words.getD (i - 4) []) (keyTemp i (words.getD (i - 1) []))]

/-- `key_expand`. -/
def keyExpand (key : Bytes) : Bytes :=
  ((List.range' 4 40).foldl keyWord
    [key.take 4, (key.drop 4).take 4, (key.drop 8).take 4, (key.drop 12).take 4]).flatten

/-- `xt`. -/
def xt (x : UInt8) : UInt8 := (x <<< 1) ^^^ ((x >>> 7) * 0x1b)

/-- Where each byte of a state comes from when the rows are shifted. -/
def shifted : List Nat := [0, 5, 10, 15, 4, 9, 14, 3, 8, 13, 2, 7, 12, 1, 6, 11]

def mixColumn : Bytes → Bytes
  | [a0, a1, a2, a3] =>
    let h := a0 ^^^ a1 ^^^ a2 ^^^ a3
    [a0 ^^^ (h ^^^ xt (a0 ^^^ a1)), a1 ^^^ (h ^^^ xt (a1 ^^^ a2)), a2 ^^^ (h ^^^ xt (a2 ^^^ a3)),
      a3 ^^^ (h ^^^ xt (a3 ^^^ a0))]
  | other => other

def mixColumns (s : Bytes) : Bytes :=
  (List.range 4).flatMap fun c => mixColumn ((s.drop (c * 4)).take 4)

/-- The round `r` of `aes_enc` with the round keys `rk`. -/
def round (rk s : Bytes) (r : Nat) : Bytes :=
  let moved := shifted.map fun i => (s.map sub).getD i 0
  let mixed := if r ≠ 10 then mixColumns moved else moved
  xorBytes mixed ((rk.drop (r * 16)).take 16)

/-- `aes_enc`. -/
def aesEnc (rk s : Bytes) : Bytes :=
  (List.range' 1 10).foldl (round rk) (xorBytes s (rk.take 16))

/-- The counter block of `aes_ctr`: the counter in the low eight bytes, big-endian. -/
def counterBlock (c : Nat) : Bytes :=
  List.replicate 8 (0 : UInt8) ++ (List.range 8).map fun i => UInt8.ofNat (c >>> (8 * (7 - i)))

/-- The byte with which `aes_ctr` masks byte `k` of its data. -/
def keystream (rk : Bytes) (base k : Nat) : UInt8 :=
  (aesEnc rk (counterBlock (base + k / 16))).getD (k % 16) 0

/-- `aes_ctr` on `nb` blocks: one thread for each block, none of which sees another's. -/
def aesCtr (rk : Bytes) (base nb : Nat) (data : Bytes) : Bytes :=
  data.mapIdx fun k b => if k / 16 < nb then b ^^^ keystream rk base k else b

/-- The masks depend on the place of a byte only, so the front of the ciphertext is the
ciphertext of the front. -/
theorem aesCtr_take (rk : Bytes) (base nb n : Nat) (data : Bytes) :
    (aesCtr rk base nb data).take n = aesCtr rk base nb (data.take n) := by
  unfold aesCtr
  apply List.ext_getElem?
  intro k
  rw [List.getElem?_take, List.getElem?_mapIdx, List.getElem?_mapIdx, List.getElem?_take]
  split <;> rfl

@[simp] theorem length_aesCtr (rk : Bytes) (base nb : Nat) (data : Bytes) :
    (aesCtr rk base nb data).length = data.length := List.length_mapIdx

/-- The example of the cipher in its standard. -/
example : aesEnc
    (keyExpand [0x2b, 0x7e, 0x15, 0x16, 0x28, 0xae, 0xd2, 0xa6, 0xab, 0xf7, 0x15, 0x88, 0x09, 0xcf,
      0x4f, 0x3c])
    [0x32, 0x43, 0xf6, 0xa8, 0x88, 0x5a, 0x30, 0x8d, 0x31, 0x31, 0x98, 0xa2, 0xe0, 0x37, 0x07,
      0x34] =
    [0x39, 0x25, 0x84, 0x1d, 0x02, 0xdc, 0x09, 0xfb, 0xdc, 0x11, 0x85, 0x97, 0x19, 0x6a, 0x0b,
      0x32] := by decide +kernel

end TransparentOffload.Aes
