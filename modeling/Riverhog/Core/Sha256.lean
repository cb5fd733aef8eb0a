import Riverhog.Core.Python

/-!
# SHA-256

The hash of FIPS 180-4 on byte strings, with 32-bit words as natural numbers under
a mask. A message is absorbed block by block into a chaining value; `absorb_append`
says that absorbing a message in two pieces, with the unfinished block carried over
as a remainder, is absorbing it whole. That is what a resumable hash relies on.
-/

namespace Riverhog.Core.Sha256

open List

/-- The low 32 bits. -/
def mask : Nat := 0xFFFFFFFF

/-- Rotate a 32-bit word to the right. -/
def rotr (x n : Nat) : Nat := ((x >>> n) ||| (x <<< (32 - n))) &&& mask

/-- The round constants of section 4.2.2. -/
def roundConstants : List Nat :=
  [0x428A2F98, 0x71374491, 0xB5C0FBCF, 0xE9B5DBA5, 0x3956C25B, 0x59F111F1, 0x923F82A4, 0xAB1C5ED5,
    0xD807AA98, 0x12835B01, 0x243185BE, 0x550C7DC3, 0x72BE5D74, 0x80DEB1FE, 0x9BDC06A7, 0xC19BF174,
    0xE49B69C1, 0xEFBE4786, 0x0FC19DC6, 0x240CA1CC, 0x2DE92C6F, 0x4A7484AA, 0x5CB0A9DC, 0x76F988DA,
    0x983E5152, 0xA831C66D, 0xB00327C8, 0xBF597FC7, 0xC6E00BF3, 0xD5A79147, 0x06CA6351, 0x14292967,
    0x27B70A85, 0x2E1B2138, 0x4D2C6DFC, 0x53380D13, 0x650A7354, 0x766A0ABB, 0x81C2C92E, 0x92722C85,
    0xA2BFE8A1, 0xA81A664B, 0xC24B8B70, 0xC76C51A3, 0xD192E819, 0xD6990624, 0xF40E3585, 0x106AA070,
    0x19A4C116, 0x1E376C08, 0x2748774C, 0x34B0BCB5, 0x391C0CB3, 0x4ED8AA4A, 0x5B9CCA4F, 0x682E6FF3,
    0x748F82EE, 0x78A5636F, 0x84C87814, 0x8CC70208, 0x90BEFFFA, 0xA4506CEB, 0xBEF9A3F7, 0xC67178F2]

/-- A chaining value: eight words. -/
structure Chain where
  a : Nat
  b : Nat
  c : Nat
  d : Nat
  e : Nat
  f : Nat
  g : Nat
  h : Nat
  deriving DecidableEq

/-- The initial hash value of section 5.3.3. -/
def initial : Chain :=
  ⟨0x6A09E667, 0xBB67AE85, 0x3C6EF372, 0xA54FF53A, 0x510E527F, 0x9B05688C, 0x1F83D9AB, 0x5BE0CD19⟩

/-- The 32-bit big-endian words of a block. -/
def words : Bytes → List Nat
  | a :: b :: c :: d :: rest => ofBigEndian [a, b, c, d] :: words rest
  | _ => []

/-- Extend the message schedule, held with its latest word first, by `n` words. -/
def extendSchedule : Nat → List Nat → List Nat
  | 0, ws => ws
  | n + 1, ws =>
    let x := ws.getD 14 0
    let y := ws.getD 1 0
    let s0 := rotr x 7 ^^^ rotr x 18 ^^^ (x >>> 3)
    let s1 := rotr y 17 ^^^ rotr y 19 ^^^ (y >>> 10)
    extendSchedule n (((ws.getD 15 0 + s0 + ws.getD 6 0 + s1) &&& mask) :: ws)

/-- The 64 schedule words of a block. -/
def schedule (block : Bytes) : List Nat := (extendSchedule 48 (words block).reverse).reverse

/-- One round with round constant `k` and schedule word `w`. -/
def round (s : Chain) (k w : Nat) : Chain :=
  let s1 := rotr s.e 6 ^^^ rotr s.e 11 ^^^ rotr s.e 25
  let choice := (s.e &&& s.f) ^^^ ((s.e ^^^ mask) &&& s.g)
  let temp1 := (s.h + s1 + choice + k + w) &&& mask
  let s0 := rotr s.a 2 ^^^ rotr s.a 13 ^^^ rotr s.a 22
  let majority := (s.a &&& s.b) ^^^ (s.a &&& s.c) ^^^ (s.b &&& s.c)
  let temp2 := (s0 + majority) &&& mask
  ⟨(temp1 + temp2) &&& mask, s.a, s.b, s.c, (s.d + temp1) &&& mask, s.e, s.f, s.g⟩

/-- All rounds, one for each round constant and schedule word. -/
def rounds : List Nat → List Nat → Chain → Chain
  | k :: ks, w :: ws, s => rounds ks ws (round s k w)
  | _, _, s => s

/-- The compression function. -/
def compress (s : Chain) (block : Bytes) : Chain :=
  let r := rounds roundConstants (schedule block) s
  ⟨(s.a + r.a) &&& mask, (s.b + r.b) &&& mask, (s.c + r.c) &&& mask, (s.d + r.d) &&& mask,
    (s.e + r.e) &&& mask, (s.f + r.f) &&& mask, (s.g + r.g) &&& mask, (s.h + r.h) &&& mask⟩

/-- Compress the first `n` blocks of a message. -/
def compressBlocks : Nat → Chain → Bytes → Chain
  | 0, s, _ => s
  | n + 1, s, m => compressBlocks n (compress s (m.take 64)) (m.drop 64)

/-- Compress every complete block and return the unfinished one. -/
def absorb (s : Chain) (m : Bytes) : Chain × Bytes :=
  (compressBlocks (m.length / 64) s m, m.drop (64 * (m.length / 64)))

/-- What follows the last `count % 64` message bytes of a message of `count` bytes. -/
def padding (count : Nat) : Bytes :=
  0x80 :: zeros ((119 - count % 64) % 64) ++ bigEndian 8 (8 * count)

/-- The digest that a chaining value spells. -/
def Chain.toBytes (s : Chain) : Bytes :=
  [s.a, s.b, s.c, s.d, s.e, s.f, s.g, s.h].flatMap (bigEndian 4)

@[simp] theorem Chain.length_toBytes (s : Chain) : s.toBytes.length = 32 := by
  simp [Chain.toBytes]

/-- Compressing more blocks continues from the chaining value reached. -/
theorem compressBlocks_add (n k : Nat) (s : Chain) (m : Bytes) :
    compressBlocks (n + k) s m = compressBlocks k (compressBlocks n s m) (m.drop (64 * n)) := by
  induction n generalizing s m with
  | zero => simp [compressBlocks]
  | succ n ih =>
    rw [Nat.succ_add, compressBlocks, compressBlocks, ih, drop_drop]
    congr 2
    omega

/-- The blocks that lie in the first part of a message do not depend on the rest. -/
theorem compressBlocks_append {n : Nat} {a : Bytes} (h : 64 * n ≤ a.length) (s : Chain)
    (b : Bytes) : compressBlocks n s (a ++ b) = compressBlocks n s a := by
  induction n generalizing s a with
  | zero => rfl
  | succ n ih =>
    rw [compressBlocks, compressBlocks, take_append_of_le_length (by omega),
      drop_append_of_le_length (by omega)]
    exact ih (by rw [length_drop]; omega) _

theorem length_absorb_snd (s : Chain) (m : Bytes) : (absorb s m).2.length = m.length % 64 := by
  rw [absorb, length_drop]
  omega

/-- Absorbing a message in two pieces carries the unfinished block over. -/
theorem absorb_append (s : Chain) (a b : Bytes) :
    absorb s (a ++ b) = absorb (absorb s a).1 ((absorb s a).2 ++ b) := by
  set n := a.length / 64 with hn
  have hna : 64 * n ≤ a.length := by omega
  set k := (a.drop (64 * n) ++ b).length / 64 with hk
  have hd : (a ++ b).drop (64 * n) = a.drop (64 * n) ++ b := drop_append_of_le_length hna
  have hlen : (a ++ b).length / 64 = n + k := by
    simp only [hk, List.length_append, length_drop]
    omega
  rw [absorb, hlen, compressBlocks_add, compressBlocks_append hna, hd, Nat.mul_add, ← drop_drop, hd]
  rfl

end Sha256

/-- `hashlib.sha256(message).digest()`. -/
def sha256 (message : Bytes) : Bytes :=
  (Sha256.absorb Sha256.initial (message ++ Sha256.padding message.length)).1.toBytes

@[simp] theorem length_sha256 (message : Bytes) : (sha256 message).length = 32 :=
  Sha256.Chain.length_toBytes _

/-- `bytes.hex()`. -/
def hex (b : Bytes) : Text := b.flatMap fun x => zeroPadded 16 2 x.toNat

theorem length_hex (b : Bytes) : (hex b).length = 2 * b.length := by
  induction b with
  | nil => rfl
  | cons x b ih =>
    have hx : (zeroPadded 16 2 x.toNat).length = 2 :=
      length_zeroPadded (by decide) (by decide) (by simpa using x.toNat_lt)
    rw [hex, List.flatMap_cons, List.length_append, hx, ← hex, ih, List.length_cons]
    omega

/-- A lower-case hexadecimal digit. -/
def isHexDigit (c : Char) : Bool := ('0' ≤ c && c ≤ '9') || ('a' ≤ c && c ≤ 'f')

theorem all_isHexDigit_hex (b : Bytes) : (hex b).all isHexDigit := by
  have hx : ∀ n < 256, (zeroPadded 16 2 n).all isHexDigit := by decide +kernel
  rw [hex, List.all_flatMap, List.all_eq_true]
  exact fun x _ => hx x.toNat x.toNat_lt

/-- The full match of `[0-9a-f]{64}`. -/
def isSha256 (t : Text) : Bool := t.length == 64 && t.all isHexDigit

/-- `hashlib.sha256(message).hexdigest()`. -/
def sha256Hex (message : Bytes) : Text := hex (sha256 message)

@[simp] theorem length_sha256Hex (message : Bytes) : (sha256Hex message).length = 64 := by
  rw [sha256Hex, length_hex, length_sha256]

/-- Every digest has the form that the archive formats require of one. -/
theorem isSha256_sha256Hex (message : Bytes) : isSha256 (sha256Hex message) := by
  simp [isSha256, sha256Hex, all_isHexDigit_hex, length_hex]

example : sha256Hex (("abc".toList).map fun c => UInt8.ofNat c.toNat) =
    "ba7816bf8f01cfea414140de5dae2223b00361a396177a9cb410ff61f20015ad" := by
  decide +kernel

end Riverhog.Core
