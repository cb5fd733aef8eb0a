import Riverhog.Core.Sha256
import Mathlib.Data.List.Range

/-!
# SHA-256 as FIPS 180-4 states it

The standard on 32-bit words, section by section, and the agreement of `sha256` with it: the
masked numbers of `Sha256` are the values of the words.
-/

namespace Riverhog.Core.Fips180

open List

/-- A word of section 2.1. -/
abbrev Word := BitVec 32

/-! ## Section 4.1.2 -/

def ch (x y z : Word) : Word := (x &&& y) ^^^ (~~~x &&& z)

def maj (x y z : Word) : Word := (x &&& y) ^^^ (x &&& z) ^^^ (y &&& z)

def bigSigma0 (x : Word) : Word := x.rotateRight 2 ^^^ x.rotateRight 13 ^^^ x.rotateRight 22

def bigSigma1 (x : Word) : Word := x.rotateRight 6 ^^^ x.rotateRight 11 ^^^ x.rotateRight 25

def smallSigma0 (x : Word) : Word := x.rotateRight 7 ^^^ x.rotateRight 18 ^^^ x >>> 3

def smallSigma1 (x : Word) : Word := x.rotateRight 17 ^^^ x.rotateRight 19 ^^^ x >>> 10

/-- The constant `K_t` of section 4.2.2. -/
def constant (t : Nat) : Word := BitVec.ofNat 32 (Sha256.roundConstants.getD t 0)

/-- Section 5.1.1: a one bit, the fewest zero bits after which 64 bits complete a block, and the
length in bits. -/
def pad (m : Bytes) : Bytes :=
  let zeroBits := (448 + 512 - (8 * m.length + 1) % 512) % 512
  m ++ 0x80 :: zeros ((zeroBits - 7) / 8) ++ bigEndian 8 (8 * m.length)

/-- The working working, and the hash value. -/
structure Hash where
  a : Word
  b : Word
  c : Word
  d : Word
  e : Word
  f : Word
  g : Word
  h : Word

/-- The initial hash value of section 5.3.3. -/
def initial : Hash :=
  ⟨0x6A09E667, 0xBB67AE85, 0x3C6EF372, 0xA54FF53A, 0x510E527F, 0x9B05688C, 0x1F83D9AB, 0x5BE0CD19⟩

/-- Section 5.2.1: the word `M_t` of a block. -/
def wordAt (block : Bytes) (t : Nat) : Word :=
  BitVec.ofNat 32 (ofBigEndian ((block.drop (4 * t)).take 4))

/-! ## Section 6.2.2 -/

/-- Step 1: the message schedule of a block. -/
def schedule (block : Bytes) (t : Nat) : Word :=
  if t < 16 then wordAt block t
  else smallSigma1 (schedule block (t - 2)) + schedule block (t - 7) +
    smallSigma0 (schedule block (t - 15)) + schedule block (t - 16)

/-- Step 3. -/
def step (v : Hash) (k w : Word) : Hash :=
  let t1 := v.h + bigSigma1 v.e + ch v.e v.f v.g + k + w
  let t2 := bigSigma0 v.a + maj v.a v.b v.c
  ⟨t1 + t2, v.a, v.b, v.c, v.d + t1, v.e, v.f, v.g⟩

/-- The working variables after `t` steps. -/
def working (v : Hash) (block : Bytes) : Nat → Hash
  | 0 => v
  | t + 1 => step (working v block t) (constant t) (schedule block t)

/-- Step 4. -/
def Hash.add (w v : Hash) : Hash :=
  ⟨w.a + v.a, w.b + v.b, w.c + v.c, w.d + v.d, w.e + v.e, w.f + v.f, w.g + v.g, w.h + v.h⟩

/-- The next hash value. -/
def next (v : Hash) (block : Bytes) : Hash := (working v block 64).add v

/-- The hash value after `n` blocks. -/
def hashBlocks : Nat → Hash → Bytes → Hash
  | 0, v, _ => v
  | n + 1, v, m => hashBlocks n (next v (m.take 64)) (m.drop 64)

/-- The message digest. -/
def digest (m : Bytes) : Bytes :=
  let v := hashBlocks ((pad m).length / 64) initial (pad m)
  [v.a, v.b, v.c, v.d, v.e, v.f, v.g, v.h].flatMap fun w => bigEndian 4 w.toNat

/-! ## Agreement -/

def Hash.toChain (v : Hash) : Sha256.Chain :=
  ⟨v.a.toNat, v.b.toNat, v.c.toNat, v.d.toNat, v.e.toNat, v.f.toNat, v.g.toNat, v.h.toNat⟩

theorem and_mask (n : Nat) : n &&& Sha256.mask = n % 2 ^ 32 :=
  Nat.and_two_pow_sub_one_eq_mod n 32

theorem rotr_toNat (x : Word) {n : Nat} (hn : n < 32) :
    Sha256.rotr x.toNat n = (x.rotateRight n).toNat := by
  rw [BitVec.toNat_rotateRight, Sha256.rotr, and_mask, Nat.mod_eq_of_lt hn, Nat.or_mod_two_pow,
    Nat.mod_eq_of_lt (lt_of_le_of_lt (Nat.shiftRight_le _ _) x.isLt)]

theorem xor_mask (x : Word) : x.toNat ^^^ Sha256.mask = (~~~x).toNat := by
  rw [← BitVec.xor_allOnes]
  rfl

theorem round_toChain (v : Hash) (k w : Word) :
    Sha256.round v.toChain k.toNat w.toNat = (step v k w).toChain := by
  simp (disch := decide) only [Sha256.round, Hash.toChain, step, ch, maj, bigSigma0, bigSigma1,
    xor_mask, and_mask, rotr_toNat, BitVec.toNat_add, BitVec.toNat_xor, BitVec.toNat_and,
    Nat.mod_add_mod, Nat.add_mod_mod]

variable {block : Bytes}

/-- The values of the first `n` words of the schedule. -/
def values (block : Bytes) (n : Nat) : List Nat :=
  (range n).map fun t => (schedule block t).toNat

theorem values_succ (block : Bytes) (n : Nat) :
    (values block (n + 1)).reverse = (schedule block n).toNat :: (values block n).reverse := by
  rw [values, range_succ, map_append, reverse_append]
  rfl

theorem rounds_toChain (v : Hash) (t n : Nat) :
    Sha256.rounds ((range' t n).map fun t => (constant t).toNat)
      ((range' t n).map fun t => (schedule block t).toNat) (working v block t).toChain =
        (working v block (t + n)).toChain := by
  induction n generalizing t with
  | zero => rfl
  | succ n ih =>
    rw [range'_succ, map_cons, map_cons, Sha256.rounds, round_toChain, ← working, ih,
      Nat.add_right_comm]
    rfl

/-- The schedule is extended, its latest word first, as the standard extends it. -/
theorem extendSchedule_values (n t : Nat) :
    Sha256.extendSchedule n (values block (t + 16)).reverse = (values block (t + 16 + n)).reverse := by
  induction n generalizing t with
  | zero => rfl
  | succ n ih =>
    have hget : ∀ i < 16,
        (values block (t + 16)).reverse.getD i 0 = (schedule block (t + 15 - i)).toNat := by
      intro i hi
      have hlt : t + 15 - i < t + 16 := by omega
      rw [getD_eq_getElem?_getD, getElem?_reverse (by simp [values]; omega)]
      simp [values, getElem?_range hlt]
    have hnext : (schedule block (t + 16)).toNat = ((schedule block t).toNat +
        (smallSigma0 (schedule block (t + 1))).toNat + (schedule block (t + 9)).toNat +
        (smallSigma1 (schedule block (t + 14))).toNat) % 2 ^ 32 := by
      rw [schedule, if_neg (by omega)]
      simp only [BitVec.toNat_add, Nat.mod_add_mod, Nat.reduceSubDiff, Nat.add_sub_cancel]
      congr 1
      omega
    simp (disch := decide) only [smallSigma0, smallSigma1, BitVec.toNat_xor,
      BitVec.toNat_ushiftRight, ← rotr_toNat] at hnext
    simp only [Sha256.extendSchedule, hget, Nat.reduceLT, and_mask, Nat.reduceSubDiff,
      Nat.add_sub_cancel]
    rw [← hnext, ← values_succ, Nat.add_right_comm, ih, Nat.add_right_comm t 1, Nat.add_assoc _ 1,
      Nat.add_comm 1]

theorem words_eq {k : Nat} (h : block.length = 4 * k) :
    Sha256.words block = (range k).map fun t => (wordAt block t).toNat := by
  induction k generalizing block with
  | zero =>
    obtain rfl := eq_nil_of_length_eq_zero h
    rfl
  | succ k ih =>
    rcases block with _ | ⟨x, _ | ⟨y, _ | ⟨z, _ | ⟨w, rest⟩⟩⟩⟩ <;>
      simp only [length_cons, length_nil] at h
    case cons.cons.cons.cons =>
      have hword : (wordAt (x :: y :: z :: w :: rest) 0).toNat = ofBigEndian [x, y, z, w] := by
        have hx := x.toNat_lt
        have hy := y.toNat_lt
        have hz := z.toNat_lt
        have hw := w.toNat_lt
        simp [wordAt, ofBigEndian]
        omega
      rw [Sha256.words, range_succ_eq_map, map_cons, map_map, ih (by omega), hword]
      rfl
    all_goals omega

theorem roundConstants_eq :
    Sha256.roundConstants = (range' 0 64).map fun t => (constant t).toNat := by
  decide +kernel

theorem schedule_eq (h : block.length = 64) :
    Sha256.schedule block = (range' 0 64).map fun t => (schedule block t).toNat := by
  have hwords : Sha256.words block = values block 16 := by
    rw [words_eq (k := 16) h]
    refine map_congr_left fun t ht => ?_
    rw [schedule, if_pos (mem_range.1 ht)]
  rw [Sha256.schedule, hwords, extendSchedule_values 48 0, reverse_reverse, values, range_eq_range']

theorem compress_of_rounds {v w : Hash}
    (h : Sha256.rounds Sha256.roundConstants (Sha256.schedule block) v.toChain = w.toChain) :
    Sha256.compress v.toChain block = (w.add v).toChain := by
  rw [Sha256.compress, h]
  simp only [Hash.toChain, Hash.add, and_mask, BitVec.toNat_add, Nat.add_comm]

/-- The compression function is the computation of the next hash value. -/
theorem compress_toChain (v : Hash) (h : block.length = 64) :
    Sha256.compress v.toChain block = (next v block).toChain := by
  apply compress_of_rounds
  rw [roundConstants_eq, schedule_eq h]
  have hrounds := @rounds_toChain block v 0 64
  rw [Nat.zero_add] at hrounds
  exact hrounds

theorem compressBlocks_toChain (n : Nat) (v : Hash) (m : Bytes) (h : 64 * n ≤ m.length) :
    Sha256.compressBlocks n v.toChain m = (hashBlocks n v m).toChain := by
  induction n generalizing v m with
  | zero => rfl
  | succ n ih =>
    rw [Sha256.compressBlocks, compress_toChain v (by rw [length_take]; omega),
      ih _ _ (by rw [length_drop]; omega)]
    rfl

/-- `sha256` is the hash of the standard. -/
theorem sha256_eq_digest (m : Bytes) : sha256 m = digest m := by
  have hpad : m ++ Sha256.padding m.length = pad m := by
    rw [Sha256.padding, pad, append_assoc]
    congr 4
    omega
  rw [sha256, hpad, Sha256.absorb]
  have hblocks := compressBlocks_toChain ((pad m).length / 64) initial (pad m) (by omega)
  rw [digest]
  change (Sha256.compressBlocks _ initial.toChain _).toBytes = _
  rw [hblocks, Sha256.Chain.toBytes]
  rfl

end Riverhog.Core.Fips180
