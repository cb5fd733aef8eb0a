import Mathlib.Data.List.Basic
import Mathlib.Tactic.Ring

/-!
# Byte strings and buffers

A byte string is a list of octets. `slice` reads a window of a buffer and
`patch` overwrites one, as slice assignment does on a mutable buffer; the lemmas
say which windows a write leaves alone, so a block that is filled field by field
can be read back field by field without unfolding the writes.
-/

namespace Riverhog.Core

open List

/-- A byte string. -/
abbrev Bytes := List UInt8

/-- A string of Unicode scalar values. -/
abbrev Text := List Char

instance : Coe String Text := ⟨String.toList⟩

section Windows

variable {α : Type*}

/-- The window `l[offset : offset + count]`, cut short at the end of the list. -/
def slice (l : List α) (offset count : Nat) : List α := (l.drop offset).take count

/-- Overwrite the window that starts at `offset` with `value`. -/
def patch (l : List α) (offset : Nat) (value : List α) : List α :=
  l.take offset ++ value ++ l.drop (offset + value.length)

theorem getElem?_slice (l : List α) (offset count i : Nat) :
    (slice l offset count)[i]? = if i < count then l[offset + i]? else none := by
  rw [slice, getElem?_take]
  simp only [getElem?_drop]

variable {writes : List (Nat × List α)} {l value : List α} {count offset : Nat}

/-- A write inside the buffer changes the letters of its window and no others. -/
theorem getElem?_patch (hl : offset + value.length ≤ l.length) (i : Nat) :
    (patch l offset value)[i]? =
      if i < offset then l[i]? else if i < offset + value.length then value[i - offset]?
        else l[i]? := by
  have ht : (l.take offset).length = offset := by
    rw [length_take]
    omega
  rw [patch, append_assoc]
  by_cases h₁ : i < offset
  · rw [if_pos h₁, getElem?_append_left (by omega), getElem?_take, if_pos h₁]
  · rw [if_neg h₁, getElem?_append_right (by omega), ht]
    by_cases h₂ : i < offset + value.length
    · rw [if_pos h₂, getElem?_append_left (by omega)]
    · rw [if_neg h₂, getElem?_append_right (by omega), getElem?_drop]
      congr 1
      omega

theorem length_patch (hl : offset + value.length ≤ l.length) :
    (patch l offset value).length = l.length := by
  simp only [patch, length_append, length_take, length_drop]
  omega

/-- A field shorter than its window is followed by what the window held before. -/
theorem slice_patch_short (hv : value.length ≤ count) (hl : offset + count ≤ l.length) :
    slice (patch l offset value) offset count =
      value ++ slice l (offset + value.length) (count - value.length) := by
  apply ext_getElem?
  intro i
  rw [getElem?_slice, getElem?_patch (by omega)]
  by_cases hi : i < value.length
  · rw [if_pos (by omega), if_neg (by omega), if_pos (by omega), getElem?_append_left hi]
    congr 1
    omega
  · rw [getElem?_append_right (by omega), getElem?_slice,
      show offset + value.length + (i - value.length) = offset + i by omega]
    by_cases hc : i < count
    · rw [if_pos hc, if_neg (by omega), if_neg (by omega), if_pos (by omega)]
    · rw [if_neg hc, if_neg (by omega)]

/-- A field that fills its window is read back as it was written. -/
theorem slice_patch_same (hv : value.length = count) (hl : offset + count ≤ l.length) :
    slice (patch l offset value) offset count = value := by
  rw [slice_patch_short (by omega) hl, hv, Nat.sub_self, slice, take_zero, append_nil]

/-- A write leaves every window before or after it alone. -/
theorem slice_patch_disjoint {o n : Nat} (hl : offset + value.length ≤ l.length)
    (hd : o + n ≤ offset ∨ offset + value.length ≤ o) :
    slice (patch l offset value) o n = slice l o n := by
  apply ext_getElem?
  intro i
  rw [getElem?_slice, getElem?_slice, getElem?_patch hl]
  by_cases hi : i < n
  · rw [if_pos hi, if_pos hi]
    rcases hd with hd | hd
    · rw [if_pos (by omega)]
    · rw [if_neg (by omega), if_neg (by omega)]
  · rw [if_neg hi, if_neg hi]

/-- Writing over a window twice keeps the second value only. -/
theorem patch_patch_same {v w : List α} (hvw : v.length = w.length)
    (hl : offset + v.length ≤ l.length) : patch (patch l offset v) offset w = patch l offset w := by
  apply ext_getElem?
  intro i
  rw [getElem?_patch (by rw [length_patch hl]; omega), getElem?_patch hl, getElem?_patch (by omega)]
  by_cases h₁ : i < offset
  · simp only [if_pos h₁]
  · by_cases h₂ : i < offset + w.length
    · simp only [if_neg h₁, if_pos h₂]
    · simp only [if_neg h₁, if_neg h₂, hvw]

/-- Writing back what a window holds changes nothing. -/
theorem patch_slice_self {v : List α} (hl : offset + v.length ≤ l.length)
    (hv : slice l offset v.length = v) : patch l offset v = l := by
  apply ext_getElem?
  intro i
  rw [getElem?_patch hl]
  by_cases h₁ : i < offset
  · rw [if_pos h₁]
  · by_cases h₂ : i < offset + v.length
    · rw [if_neg h₁, if_pos h₂, ← hv, getElem?_slice, if_pos (by omega)]
      congr 1
      omega
    · rw [if_neg h₁, if_neg h₂]

theorem slice_replicate {a : α} {size : Nat} (h : offset + count ≤ size) :
    slice (replicate size a) offset count = replicate count a := by
  rw [slice, drop_replicate, take_replicate, Nat.min_eq_left (by omega)]

/-- A window of a window. -/
theorem slice_slice {o n : Nat} (h : o + n ≤ count) :
    slice (slice l offset count) o n = slice l (offset + o) n := by
  rw [slice, slice, slice, drop_take, drop_drop, take_take, Nat.min_eq_left (by omega)]

/-- The window that is exactly the middle part of a concatenation. -/
theorem slice_append_middle (a b c : List α) : slice (a ++ (b ++ c)) a.length b.length = b := by
  rw [slice, drop_left, take_left]

/-- Two adjacent windows are one window. -/
theorem slice_add (l : List α) (offset m n : Nat) :
    slice l offset (m + n) = slice l offset m ++ slice l (offset + m) n := by
  rw [slice, slice, slice, take_add, drop_drop]

/-- A buffer after a series of writes, each an offset and a value. -/
def fill (l : List α) (writes : List (Nat × List α)) : List α :=
  writes.foldl (fun l w => patch l w.1 w.2) l

/-- The windows of two writes do not overlap. -/
def Apart (w w' : Nat × List α) : Prop :=
  w.1 + w.2.length ≤ w'.1 ∨ w'.1 + w'.2.length ≤ w.1

variable (hb : ∀ w ∈ writes, w.1 + w.2.length ≤ l.length)
include hb

theorem length_fill : (fill l writes).length = l.length := by
  induction writes generalizing l with
  | nil => rfl
  | cons w writes ih =>
    have hw := length_patch (hb w mem_cons_self)
    rw [fill, foldl_cons, ← fill, ih, hw]
    intro w' hw'
    rw [hw]
    exact hb w' (mem_cons_of_mem _ hw')

/-- A window that no write touches keeps what it held. -/
theorem slice_fill_disjoint (hd : ∀ w ∈ writes, offset + count ≤ w.1 ∨ w.1 + w.2.length ≤ offset) :
    slice (fill l writes) offset count = slice l offset count := by
  induction writes generalizing l with
  | nil => rfl
  | cons w writes ih =>
    have hw := hb w mem_cons_self
    rw [fill, foldl_cons, ← fill, ih, slice_patch_disjoint hw (hd w mem_cons_self)]
    · intro w' hw'
      rw [length_patch hw]
      exact hb w' (mem_cons_of_mem _ hw')
    · exact fun w' hw' => hd w' (mem_cons_of_mem _ hw')

/-- Writes that do not overlap are all read back. -/
theorem slice_fill_mem (hp : writes.Pairwise Apart)
    {w : Nat × List α} (hw : w ∈ writes) : slice (fill l writes) w.1 w.2.length = w.2 := by
  induction writes generalizing l with
  | nil => cases hw
  | cons first writes ih =>
    have hf := hb first mem_cons_self
    have hb' : ∀ w ∈ writes, w.1 + w.2.length ≤ (patch l first.1 first.2).length := fun w hw => by
      rw [length_patch hf]
      exact hb w (mem_cons_of_mem _ hw)
    rw [pairwise_cons] at hp
    rw [fill, foldl_cons, ← fill]
    rcases mem_cons.1 hw with rfl | hw
    · rw [slice_fill_disjoint hb' fun w' hw' => hp.1 w' hw', slice_patch_same rfl hf]
    · exact ih hb' hp.2 hw

end Windows

/-- A run of zero bytes. -/
def zeros (count : Nat) : Bytes := replicate count 0

@[simp] theorem length_zeros (count : Nat) : (zeros count).length = count :=
  length_replicate

/-- The sum of the octets of a byte string. -/
def byteSum (b : Bytes) : Nat := (b.map UInt8.toNat).sum

theorem byteSum_le (b : Bytes) : byteSum b ≤ 255 * b.length := by
  induction b with
  | nil => simp [byteSum]
  | cons x b ih =>
    have hx := x.toNat_lt
    simp only [byteSum, map_cons, sum_cons, length_cons] at ih ⊢
    omega

/-- The `width` low octets of a number, most significant first. -/
def bigEndian : Nat → Nat → Bytes
  | 0, _ => []
  | width + 1, n => UInt8.ofNat (n / 256 ^ width) :: bigEndian width n

@[simp] theorem length_bigEndian (width n : Nat) : (bigEndian width n).length = width := by
  induction width with
  | zero => rfl
  | succ width ih => rw [bigEndian, length_cons, ih]

/-- The number an octet string spells, most significant first. -/
def ofBigEndian (b : Bytes) : Nat := b.foldl (fun n x => n * 256 + x.toNat) 0

end Riverhog.Core
