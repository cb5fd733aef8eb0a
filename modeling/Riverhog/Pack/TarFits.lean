import Riverhog.Core.JsonLength
import Riverhog.Pack.TarRead

/-!
# Headers that can be written

A tar header is written for every path and size of a practical length: what does not
fit a ustar block goes to a pax header, whose own fields have room for it. The header
is a whole number of blocks.
-/

namespace Riverhog.Pack

open Core List

variable {size : Nat} {path : Text}

/-- The fields that `_ustar_name` returns fit a header. -/
theorem length_ustarName {name namePrefix : Bytes} (h : ustarName path = .ok (name, namePrefix)) :
    name.length ≤ 100 ∧ namePrefix.length ≤ 155 := by
  rw [ustarName] at h
  split_ifs at h with hl
  · obtain ⟨rfl, rfl⟩ := Prod.ext_iff.1 (Except.ok.inj h)
    exact ⟨hl, Nat.zero_le _⟩
  · simp only at h
    split at h
    case h_2 => cases h
    case h_1 fields hf =>
      obtain ⟨index, -, hfound⟩ := exists_of_findSome?_eq_some hf
      split_ifs at hfound with hfit
      rw [Except.ok.injEq] at h
      rw [h, Option.some.injEq, Prod.mk.injEq] at hfound
      obtain ⟨rfl, rfl⟩ := hfound
      exact ⟨hfit.2, hfit.1⟩

/-- A header block is written when the path has a ustar name and the size fits its field. -/
theorem tarUstarHeader_ok (typeflag : UInt8) {fields : Bytes × Bytes}
    (hname : ustarName path = .ok fields) (hs : size < 8 ^ 11) :
    ∃ block, tarUstarHeader path size [typeflag] = .ok block := by
  obtain ⟨name, namePrefix⟩ := fields
  obtain ⟨hn, hp⟩ := length_ustarName hname
  have hsum : byteSum (fill (zeros 512) (headerWrites name namePrefix size typeflag)) < 8 ^ 7 := by
    have hle := byteSum_le (fill (zeros 512) (headerWrites name namePrefix size typeflag))
    rw [length_fill (headerWrites_bound typeflag hn hp hs), length_zeros] at hle
    omega
  refine ⟨patch (fill (zeros 512) (headerWrites name namePrefix size typeflag)) 148
    (Tar.octalField 8 (byteSum (fill (zeros 512) (headerWrites name namePrefix size typeflag)))), ?_⟩
  simp only [tarUstarHeader, bind_eq_ok, writeTarField_eq_ok,
    writeTarOctal_eq_ok (show 1 < 8 by decide), writeTarOctal_eq_ok (show 1 < 12 by decide),
    require_eq_ok]
  exact ⟨(name, namePrefix), hname, _, ⟨hn, rfl⟩, _, ⟨by decide, rfl⟩, _, ⟨by decide, rfl⟩, _,
    ⟨by decide, rfl⟩, _, ⟨hs, rfl⟩, _, ⟨by decide, rfl⟩, (), rfl, _, ⟨by decide, rfl⟩, _,
    ⟨by decide, rfl⟩, _, ⟨hp, rfl⟩, hsum, rfl⟩

/-- A short path is its own ustar name. -/
theorem ustarName_short (h : (encodeUtf8 path).length ≤ 100) :
    ustarName path = .ok (encodeUtf8 path, []) := by
  rw [ustarName]
  exact if_pos h

/-- A fixed directory name before half a digest is short. -/
theorem length_digest_path {directory : Text} (digest : Bytes) (hd : directory.length ≤ 13)
    (ha : (directory.all fun c => decide (c.toNat < 128)) = true) :
    (encodeUtf8 (directory ++ (hex digest).take 32)).length ≤ 100 := by
  have ha : ∀ c ∈ directory, c.toNat < 128 :=
    fun c hc => of_decide_eq_true (all_eq_true.1 ha c hc)
  have hhex : ∀ c ∈ (hex digest).take 32, c.toNat < 128 := by
    intro c hc
    have hdigit := all_eq_true.1 (all_isHexDigit_hex digest) c (mem_of_mem_take hc)
    rw [isHexDigit] at hdigit
    simp only [Bool.or_eq_true, Bool.and_eq_true, decide_eq_true_eq] at hdigit
    rcases hdigit with ⟨-, hle⟩ | ⟨-, hle⟩
    · exact lt_of_le_of_lt (show c.toNat ≤ '9'.toNat from hle) (by decide)
    · exact lt_of_le_of_lt (show c.toNat ≤ 'f'.toNat from hle) (by decide)
  rw [encodeUtf8_append, length_append, encodeUtf8_ascii ha, encodeUtf8_ascii hhex,
    length_map, length_map, length_take]
  omega

theorem length_paxHeaderPath (path : Text) : (encodeUtf8 (paxHeaderPath path)).length ≤ 100 :=
  length_digest_path _ (by decide) (by decide)

theorem length_paxPlaceholderPath (path : Text) :
    (encodeUtf8 (paxPlaceholderPath path)).length ≤ 100 :=
  length_digest_path _ (by decide) (by decide)

/-- A number has at most half as many digits as its value, and one. -/
theorem length_decimal_le_half (n : Nat) : (decimal n).length ≤ n / 2 + 1 := by
  rw [length_decimal_le_iff (Nat.succ_pos _)]
  have h5 : n / 2 + 1 < 5 ^ (n / 2 + 1) := Nat.lt_pow_self (by decide)
  have h2 : 2 ≤ 2 ^ (n / 2 + 1) := Nat.le_self_pow (Nat.succ_ne_zero _) 2
  have h10 : 10 ^ (n / 2 + 1) = 2 ^ (n / 2 + 1) * 5 ^ (n / 2 + 1) := by
    rw [← Nat.mul_pow]
  have hmul := Nat.mul_le_mul h2 h5.le
  rw [h10]
  omega

/-- A record is at most twice as long as its keyword and value. -/
theorem length_record_le {record keyword value : Bytes} (h : Tar.IsRecord record keyword value) :
    record.length ≤ 2 * (keyword.length + value.length) + 8 := by
  have hdigits : ∀ c ∈ decimal record.length, ∃ d < 10, c = Nat.digitChar d :=
    fun c hc => mem_toDigits (by decide) hc
  have hle := length_decimal_le_half record.length
  have hlength := congrArg length h
  rw [encodeUtf8_digits hdigits] at hlength
  simp only [length_append, length_cons, length_map, length_nil] at hlength
  omega

/-- The records of the attributes are written, and are at most as long as their values allow. -/
theorem paxPayload_ok {attrs : List (Text × Text)} {limit : Nat}
    (h : ∀ a ∈ attrs, (encodeUtf8 a.1).length + (encodeUtf8 a.2).length ≤ limit) :
    ∃ payload, paxPayload attrs = .ok payload ∧
      payload.length ≤ attrs.length * (2 * limit + 8) := by
  induction attrs with
  | nil => exact ⟨[], rfl, Nat.zero_le _⟩
  | cons a attrs ih =>
    rw [forall_mem_cons] at h
    obtain ⟨payload, hpayload, hle⟩ := ih h.2
    obtain ⟨record, hrecord, hspec, -⟩ := paxRecord_spec a.1 a.2
    refine ⟨record ++ payload, ?_, ?_⟩
    · rw [paxPayload, hrecord, hpayload]
      rfl
    · have hlength := length_record_le hspec
      rw [length_append, length_cons, Nat.add_mul, Nat.one_mul]
      omega

/-- What the pax attributes hold. -/
theorem attrs_value (path : Text) (size : Nat) : (tarFileHeaderValues path size).1.length ≤ 2 ∧
      ∀ a ∈ (tarFileHeaderValues path size).1, a.2 = path ∨ a.2 = decimal size := by
  rw [tarFileHeaderValues]
  cases ustarName path <;> split_ifs <;> simp

/-- What the file header holds always fits a block. -/
theorem fileHeader_ok (path : Text) (size : Nat) (typeflag : UInt8) :
    ∃ block, tarUstarHeader (tarFileHeaderValues path size).2.1 (tarFileHeaderValues path size).2.2
      [typeflag] = .ok block := by
  have hsize : (tarFileHeaderValues path size).2.2 < 8 ^ 11 := by
    rw [tarFileHeaderValues]
    dsimp only
    split_ifs with hs
    · exact Nat.pow_pos (by decide)
    · rw [tarUstarSizeMax] at hs
      omega
  have hname : ∃ fields, ustarName (tarFileHeaderValues path size).2.1 = .ok fields := by
    rw [tarFileHeaderValues]
    cases hu : ustarName path with
    | ok fields => exact ⟨fields, hu⟩
    | error e => exact ⟨_, ustarName_short (length_paxPlaceholderPath path)⟩
  obtain ⟨fields, hfields⟩ := hname
  exact tarUstarHeader_ok typeflag hfields hsize

/-- The header of a path of at most a mebibyte, for a size of at most a million digits. -/
theorem tarHeader_ok (hp : (encodeUtf8 path).length ≤ 2 ^ 20) (hs : size < 10 ^ 10 ^ 6) :
    ∃ header, tarHeader path size = .ok header ∧ header.length ≤ 2 ^ 23 := by
  obtain ⟨fileHeader, hfile⟩ := fileHeader_ok path size 48
  have hl := tarUstarHeader_length hfile
  obtain ⟨hcount, hvalue⟩ := attrs_value path size
  have hdecimal : (encodeUtf8 (decimal size)).length ≤ 2 ^ 20 := by
    have hdigits : ∀ c ∈ decimal size, ∃ d < 10, c = Nat.digitChar d :=
      fun c hc => mem_toDigits (by decide) hc
    have hle : (decimal size).length ≤ 10 ^ 6 := (length_decimal_le_iff (by decide)).2 hs
    rw [encodeUtf8_digits hdigits, length_map]
    exact hle.trans (by decide)
  have hattrs : ∀ a ∈ (tarFileHeaderValues path size).1,
      (encodeUtf8 a.1).length + (encodeUtf8 a.2).length ≤ 2 ^ 20 + 4 := by
    intro a ha
    have hkey : (encodeUtf8 a.1).length = 4 := by
      rcases attrs_key path size a ha with h | h <;> rw [h] <;> decide
    rcases hvalue a ha with h | h <;> rw [hkey, h] <;> omega
  obtain ⟨payload, hpayload, hle⟩ := paxPayload_ok hattrs
  have hlength : payload.length ≤ 2 ^ 22 + 40 := by
    refine hle.trans ?_
    have hmul := Nat.mul_le_mul_right (2 * (2 ^ 20 + 4) + 8) hcount
    omega
  have hfits : payload.length < 8 ^ 11 := by omega
  obtain ⟨paxHeader, hpax⟩ :=
    tarUstarHeader_ok 120 (ustarName_short (length_paxHeaderPath path)) hfits
  have hpl := tarUstarHeader_length hpax
  by_cases he : (tarFileHeaderValues path size).1.isEmpty = true
  · refine ⟨fileHeader, ?_, by omega⟩
    simp only [tarHeader, hfile, ok_bind, he, if_true]
    rfl
  · refine ⟨paxHeader ++ payload ++ zeros (tarPadding payload.length) ++ fileHeader, ?_, ?_⟩
    · simp only [tarHeader, hfile, ok_bind, he, hpayload, hpax]
      rfl
    · simp only [length_append, hl, hpl, length_zeros, tarPadding, tarBlockSize]
      omega

/-- The header of a short path and a size that fits is one block. -/
theorem tarHeader_short (hp : (encodeUtf8 path).length ≤ 100) (hs : size ≤ tarUstarSizeMax) :
    ∃ header, tarHeader path size = .ok header ∧ header.length = tarBlockSize := by
  have hvalues : tarFileHeaderValues path size = ([], path, size) := by
    rw [tarFileHeaderValues, ustarName_short hp]
    dsimp only
    rw [if_neg (by omega)]
    rfl
  have hfits : size < 8 ^ 11 := by
    rw [tarUstarSizeMax] at hs
    omega
  obtain ⟨header, hheader⟩ := tarUstarHeader_ok 48 (ustarName_short hp) hfits
  refine ⟨header, ?_, tarUstarHeader_length hheader⟩
  rw [tarHeader, hvalues]
  simp only [hheader, ok_bind, isEmpty_nil, if_true]
  rfl

end Riverhog.Pack
