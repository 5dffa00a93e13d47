import Mathlib.Data.List.Defs
import Mathlib.Algebra.Group.Nat.Basic
import Mathlib.Tactic.Ring
import Mathlib.Algebra.BigOperators.Group.List

/-! BLAKE2b (RFC 7693), the hash behind the pallet's `Blake2_128Concat` storage maps.
Storage iterates a map in the byte order of its keys `blake2_128(k) ++ k`, so this hash,
not the numeric order of the keys, decides the order of `Proposals::iter()`. The hasher is
reversible: dropping the sixteen hash bytes gives back the SCALE encoding of the key, so two `u32`
keys never share a hashed key. -/
namespace QuadraticVoting.Blake2

/-- The initialisation vector (the SHA-512 one). -/
def iv : List ℕ :=
  [0x6a09e667f3bcc908, 0xbb67ae8584caa73b, 0x3c6ef372fe94f82b, 0xa54ff53a5f1d36f1,
   0x510e527fade682d1, 0x9b05688c2b3e6c1f, 0x1f83d9abfb41bd6b, 0x5be0cd19137e2179]

/-- The message schedule of the ten distinct rounds. -/
def sigma : List (List ℕ) :=
  [[0, 1, 2, 3, 4, 5, 6, 7, 8, 9, 10, 11, 12, 13, 14, 15],
   [14, 10, 4, 8, 9, 15, 13, 6, 1, 12, 0, 2, 11, 7, 5, 3],
   [11, 8, 12, 0, 5, 2, 15, 13, 10, 14, 3, 6, 7, 1, 9, 4],
   [7, 9, 3, 1, 13, 12, 11, 14, 2, 6, 5, 10, 4, 0, 15, 8],
   [9, 0, 5, 7, 2, 4, 10, 15, 14, 1, 11, 12, 6, 8, 3, 13],
   [2, 12, 6, 10, 0, 11, 8, 3, 4, 13, 7, 5, 15, 14, 1, 9],
   [12, 5, 1, 15, 14, 13, 4, 10, 0, 7, 6, 3, 9, 2, 8, 11],
   [13, 11, 7, 14, 12, 1, 3, 9, 5, 0, 15, 4, 8, 6, 2, 10],
   [6, 15, 14, 9, 11, 3, 0, 8, 12, 2, 13, 7, 1, 4, 10, 5],
   [10, 2, 8, 4, 7, 6, 1, 5, 15, 11, 9, 14, 3, 12, 13, 0]]

def wordMod : ℕ := 2 ^ 64

def add64 (a b : ℕ) : ℕ := (a + b) % wordMod

def rotr64 (x n : ℕ) : ℕ := (x >>> n ||| x <<< (64 - n)) % wordMod

/-- The mixing function `G` on the working vector. -/
def mix (v : List ℕ) (a b c d x y : ℕ) : List ℕ :=
  let va := add64 (add64 (v.getD a 0) (v.getD b 0)) x
  let vd := rotr64 (v.getD d 0 ^^^ va) 32
  let vc := add64 (v.getD c 0) vd
  let vb := rotr64 (v.getD b 0 ^^^ vc) 24
  let va := add64 (add64 va vb) y
  let vd := rotr64 (vd ^^^ va) 16
  let vc := add64 vc vd
  let vb := rotr64 (vb ^^^ vc) 63
  (((v.set a va).set b vb).set c vc).set d vd

def round (m v s : List ℕ) : List ℕ :=
  let w := fun i => m.getD (s.getD i 0) 0
  let v := mix v 0 4 8 12 (w 0) (w 1)
  let v := mix v 1 5 9 13 (w 2) (w 3)
  let v := mix v 2 6 10 14 (w 4) (w 5)
  let v := mix v 3 7 11 15 (w 6) (w 7)
  let v := mix v 0 5 10 15 (w 8) (w 9)
  let v := mix v 1 6 11 12 (w 10) (w 11)
  let v := mix v 2 7 8 13 (w 12) (w 13)
  mix v 3 4 9 14 (w 14) (w 15)

/-- The compression function `F`: twelve rounds over the block's sixteen words `m`,
with byte counter `t` and the final-block flag. -/
def compress (h m : List ℕ) (t : ℕ) (last : Bool) : List ℕ :=
  let v := h ++ iv
  let v := v.set 12 (v.getD 12 0 ^^^ t % wordMod)
  let v := v.set 13 (v.getD 13 0 ^^^ t / wordMod)
  let v := if last then v.set 14 (v.getD 14 0 ^^^ (wordMod - 1)) else v
  let v := (sigma ++ sigma.take 2).foldl (round m) v
  (List.range 8).map fun i => h.getD i 0 ^^^ v.getD i 0 ^^^ v.getD (i + 8) 0

/-- A block's sixteen little-endian 64-bit words, zero padded. -/
def words (block : List UInt8) : List ℕ :=
  (List.range 16).map fun i =>
    ((block.drop (8 * i)).take 8).foldr (fun b acc => b.toNat + 256 * acc) 0

def wordBytes (w : ℕ) : List UInt8 := (List.range 8).map fun i => (w >>> (8 * i)).toUInt8

/-- The message cut into 128-byte blocks, the last one possibly shorter; `fuel` bounds the
number of blocks. -/
def blocks : (fuel : ℕ) → List UInt8 → List (List UInt8)
  | 0, _ => []
  | fuel + 1, bs => if bs.length ≤ 128 then [bs] else bs.take 128 :: blocks fuel (bs.drop 128)

/-- Unkeyed BLAKE2b with an `outLen`-byte digest. -/
def blake2b (outLen : ℕ) (input : List UInt8) : List UInt8 :=
  let h := iv.set 0 (iv.getD 0 0 ^^^ 0x01010000 ^^^ outLen)
  let bs := blocks input.length input
  let h := (bs.dropLast.foldl (fun (acc : List ℕ × ℕ) b =>
    (compress acc.1 (words b) (acc.2 + 128) false, acc.2 + 128)) (h, 0)).1
  let h := compress h (words (bs.getLast?.getD [])) input.length true
  (h.flatMap wordBytes).take outLen

/-- A byte string read as a big-endian number; on strings of one length this order is the
byte-wise order of the storage trie. -/
def bytesValue (bs : List UInt8) : ℕ := bs.foldl (fun acc b => 256 * acc + b.toNat) 0

set_option maxRecDepth 2000 in
example : bytesValue (blake2b 64 [0x61, 0x62, 0x63]) =
    0xba80a53f981c4d0d6a2797b69f12f6e94c212f14685ac4b74b12bb6fdbffa2d1 * 2 ^ 256 +
      0x7d87c5392aab792dc252d5de4533cc9518d38aa8dbf1925ab92386edd4009923 := by
  decide

def blake2_128 (input : List UInt8) : List UInt8 := blake2b 16 input

/-- SCALE encoding of a `u32`: four little-endian bytes. -/
def encodeU32 (n : ℕ) : List UInt8 := (List.range 4).map fun i => (n >>> (8 * i)).toUInt8

/-- The `Blake2_128Concat` hashed key: the hash of the encoded key, then the encoded key. -/
def blake2_128Concat (encoded : List UInt8) : List UInt8 := blake2_128 encoded ++ encoded

/-- Where the `u32` key `k` of a `Blake2_128Concat` map sits in storage order. -/
def storageKey (k : ℕ) : ℕ := bytesValue (blake2_128Concat (encodeU32 k))

/-- `Blake2_128Concat::reverse`: the hashed key without its sixteen hash bytes. -/
def reverse (hashed : List UInt8) : List UInt8 := hashed.drop 16

/-- SCALE decoding of a `u32` from its four little-endian bytes. -/
def decodeU32 (bs : List UInt8) : ℕ := bs.foldr (fun b acc => b.toNat + 256 * acc) 0

theorem length_compress (h m : List ℕ) (t : ℕ) (last : Bool) : (compress h m t last).length = 8 := by
  simp [compress]

theorem length_wordBytes (w : ℕ) : (wordBytes w).length = 8 := by simp [wordBytes]

theorem length_blake2_128 (input : List UInt8) : (blake2_128 input).length = 16 := by
  simp [blake2_128, blake2b, List.length_flatMap, Function.comp_def, length_wordBytes,
    length_compress]

@[simp] theorem reverse_blake2_128Concat (encoded : List UInt8) :
    reverse (blake2_128Concat encoded) = encoded := by
  simp [reverse, blake2_128Concat, List.drop_left' (length_blake2_128 encoded)]

theorem length_encodeU32 (k : ℕ) : (encodeU32 k).length = 4 := by simp [encodeU32]

theorem toNat_toUInt8 (n : ℕ) : n.toUInt8.toNat = n % 256 := rfl

@[simp] theorem decodeU32_encodeU32 {k : ℕ} (hk : k < 2 ^ 32) : decodeU32 (encodeU32 k) = k := by
  simp [decodeU32, encodeU32, List.range_succ, Nat.shiftRight_eq_div_pow, toNat_toUInt8]
  omega

theorem foldl_bytesValue (acc : ℕ) (bs : List UInt8) :
    bs.foldl (fun acc b => 256 * acc + b.toNat) acc = acc * 256 ^ bs.length + bytesValue bs := by
  induction bs generalizing acc with
  | nil => simp [bytesValue]
  | cons b bs ih =>
    simp only [bytesValue, List.foldl_cons, List.length_cons]
    rw [ih, ih, pow_succ]
    ring

theorem bytesValue_cons (b : UInt8) (bs : List UInt8) :
    bytesValue (b :: bs) = b.toNat * 256 ^ bs.length + bytesValue bs := by
  rw [bytesValue, List.foldl_cons, foldl_bytesValue]
  simp

theorem bytesValue_lt (bs : List UInt8) : bytesValue bs < 256 ^ bs.length := by
  induction bs with
  | nil => simp [bytesValue]
  | cons b bs ih =>
    have hb : b.toNat + 1 ≤ 256 := b.toNat_lt_size
    calc bytesValue (b :: bs) < (b.toNat + 1) * 256 ^ bs.length := by
          rw [bytesValue_cons, Nat.succ_mul]; omega
      _ ≤ 256 ^ (b :: bs).length := by
          rw [List.length_cons, pow_succ']; exact Nat.mul_le_mul_right _ hb

theorem mul_add_div_mod {P x r : ℕ} (hr : r < P) : (x * P + r) / P = x ∧ (x * P + r) % P = r := by
  rw [Nat.add_comm]
  exact ⟨by rw [Nat.add_mul_div_right _ _ (by omega), Nat.div_eq_of_lt hr, zero_add],
    by rw [Nat.add_mul_mod_self_right, Nat.mod_eq_of_lt hr]⟩

/-- On byte strings of one length, the number read off the bytes determines them. -/
theorem bytesValue_inj {xs ys : List UInt8} (hl : xs.length = ys.length)
    (h : bytesValue xs = bytesValue ys) : xs = ys := by
  induction xs generalizing ys with
  | nil => cases ys <;> simp_all
  | cons x xs ih =>
    obtain _ | ⟨y, ys⟩ := ys
    · simp at hl
    simp only [List.length_cons, Nat.add_right_cancel_iff] at hl
    rw [bytesValue_cons, bytesValue_cons, hl] at h
    have hx := mul_add_div_mod (x := x.toNat) (hl ▸ bytesValue_lt xs)
    have hy := mul_add_div_mod (x := y.toNat) (bytesValue_lt ys)
    rw [h] at hx
    rw [UInt8.eq_of_val_eq (Fin.ext (hx.1.symm.trans hy.1)), ih hl (hx.2.symm.trans hy.2)]

theorem length_blake2_128Concat (encoded : List UInt8) :
    (blake2_128Concat encoded).length = 16 + encoded.length := by
  simp [blake2_128Concat, length_blake2_128]

/-- Two `u32` keys with one hashed key are one key: the hashed key's bytes give back the key. -/
theorem storageKey_inj {a b : ℕ} (ha : a < 2 ^ 32) (hb : b < 2 ^ 32) (h : storageKey a = storageKey b) :
    a = b := by
  have hbytes : blake2_128Concat (encodeU32 a) = blake2_128Concat (encodeU32 b) :=
    bytesValue_inj (by simp only [length_blake2_128Concat, length_encodeU32]) h
  calc a = decodeU32 (reverse (blake2_128Concat (encodeU32 a))) := by
        rw [reverse_blake2_128Concat, decodeU32_encodeU32 ha]
    _ = decodeU32 (reverse (blake2_128Concat (encodeU32 b))) := by rw [hbytes]
    _ = b := by rw [reverse_blake2_128Concat, decodeU32_encodeU32 hb]

end QuadraticVoting.Blake2
