import Riverhog.Pack.TarHeader
import Riverhog.Core.Tar

/-!
# Pack members are read back

Every header that the writer returns, followed by data of the announced size and
its padding, is a member of a ustar archive in the sense of `Tar.Encodes`. A header
block is a series of writes to disjoint windows of one zeroed buffer, so its fields
are read back by the window lemmas; the pax attributes restore what those fields
cannot hold.
-/

namespace Riverhog.Pack

open Core Tar List Except

theorem tarPadding_eq (size : Nat) : tarPadding size = padding size := by
  rw [tarPadding, padding, tarBlockSize, blockSize]
  omega

variable {block header : Bytes} {size : Nat} {path : Text} {typeflag : UInt8}

theorem writeTarField_eq_ok {header' value : Bytes} {offset length : Nat} :
    writeTarField header offset length value = .ok header' ↔
      value.length ≤ length ∧ patch header offset value = header' := by
  rw [writeTarField]
  split_ifs with h
  · simp only [false_iff, not_and]
    omega
  · simp only [ok.injEq, iff_and_self]
    omega

/-- An octal field that fits is written whole. -/
theorem writeTarOctal_eq_ok {header' : Bytes} {offset length value : Nat} (hl : 1 < length) :
    writeTarOctal header offset length value = .ok header' ↔
      value < 8 ^ (length - 1) ∧ patch header offset (octalField length value) = header' := by
  have hd : ∀ c ∈ zeroPadded 8 (length - 1) value, ∃ d < 10, c = Nat.digitChar d := fun c hc => by
    obtain ⟨d, hd, he⟩ := mem_zeroPadded (by decide) hc
    exact ⟨d, by omega, he⟩
  have hlen : (encodeUtf8 (zeroPadded 8 (length - 1) value) ++ [0]).length =
      max (length - 1) (Nat.toDigits 8 value).length + 1 := by
    rw [length_append, encodeUtf8_digits hd, length_map, length_zeroPadded_eq_max, length_singleton]
  have hfit := Nat.length_toDigits_le_iff (b := 8) (n := value) (k := length - 1) (by decide)
    (by omega)
  rw [writeTarOctal]
  split_ifs with h
  · simp only [false_iff, not_and]
    omega
  · have hpad : (encodeUtf8 (zeroPadded 8 (length - 1) value) ++ [0]).leftpad length 48 =
        octalField length value := by
      rw [leftpad, show length - _ = 0 by omega]
      rfl
    rw [hpad]
    simp only [ok.injEq, iff_and_self]
    omega

/-- The fields of a header before its checksum, as offsets and values. -/
def headerWrites (name namePrefix : Bytes) (size : Nat) (typeflag : UInt8) : List (Nat × Bytes) :=
  [(0, name), (100, octalField 8 0o644), (108, octalField 8 0), (116, octalField 8 0),
    (124, octalField 12 size), (136, octalField 12 0), (148, replicate 8 32),
    (156, [typeflag]), (257, [117, 115, 116, 97, 114, 0]), (263, [48, 48]), (345, namePrefix)]

/-- A header is written only when the path has a ustar name and the size fits its field. -/
theorem tarUstarHeader_inv (h : tarUstarHeader path size [typeflag] = .ok block) :
    ∃ name namePrefix, ustarName path = .ok (name, namePrefix) ∧
      name.length ≤ 100 ∧ namePrefix.length ≤ 155 ∧ size < 8 ^ 11 ∧
      byteSum (fill (zeros 512) (headerWrites name namePrefix size typeflag)) < 8 ^ 7 ∧
      block = patch (fill (zeros 512) (headerWrites name namePrefix size typeflag)) 148
        (octalField 8 (byteSum
          (fill (zeros 512) (headerWrites name namePrefix size typeflag)))) := by
  simp only [tarUstarHeader, bind_eq_ok, writeTarField_eq_ok,
    writeTarOctal_eq_ok (show 1 < 8 by decide), writeTarOctal_eq_ok (show 1 < 12 by decide),
    require_eq_ok] at h
  obtain ⟨⟨name, namePrefix⟩, hname, _, ⟨hn, rfl⟩, _, ⟨-, rfl⟩, _, ⟨-, rfl⟩, _, ⟨-, rfl⟩, _,
    ⟨hs, rfl⟩, _, ⟨-, rfl⟩, -, -, _, ⟨-, rfl⟩, _, ⟨-, rfl⟩, _, ⟨hp, rfl⟩, hsum, rfl⟩ := h
  exact ⟨name, namePrefix, hname, hn, hp, hs, hsum, rfl⟩

section Fields

variable {name namePrefix : Bytes} {size : Nat} (typeflag : UInt8)

/-- The windows of the fields, whatever the size field holds. -/
theorem headerWrites_windows (hs : size < 8 ^ 11) :
    (headerWrites name namePrefix size typeflag).map (fun w => (w.1, w.2.length)) =
      [(0, name.length), (100, 8), (108, 8), (116, 8), (124, 12), (136, 12), (148, 8), (156, 1),
        (257, 6), (263, 2), (345, namePrefix.length)] := by
  have hf : (octalField 12 size).length = 12 := length_octalField (by decide) hs
  have h₁ : (octalField 8 0o644).length = 8 := by decide
  have h₂ : (octalField 8 0).length = 8 := by decide
  have h₃ : (octalField 12 0).length = 12 := by decide
  simp only [headerWrites, map_cons, map_nil, hf, h₁, h₂, h₃, length_replicate,
    length_cons, length_nil]

/-- A statement about the windows is a statement about eleven pairs of numbers. -/
theorem forall_headerWrites (hs : size < 8 ^ 11) {P : Nat → Nat → Prop}
    (h : ∀ w ∈ [(0, name.length), (100, 8), (108, 8), (116, 8), (124, 12), (136, 12), (148, 8),
      (156, 1), (257, 6), (263, 2), (345, namePrefix.length)], P w.1 w.2) :
    ∀ w ∈ headerWrites name namePrefix size typeflag, P w.1 w.2.length := by
  rw [← headerWrites_windows typeflag hs, forall_mem_map] at h
  exact h

variable (hn : name.length ≤ 100) (hp : namePrefix.length ≤ 155) (hs : size < 8 ^ 11) {sum : Bytes}

include hn hp hs in
theorem headerWrites_bound :
    ∀ w ∈ headerWrites name namePrefix size typeflag, w.1 + w.2.length ≤ (zeros 512).length := by
  rw [length_zeros]
  refine forall_headerWrites typeflag hs (P := fun o n => o + n ≤ 512) ?_
  simp only [forall_mem_cons, not_mem_nil, IsEmpty.forall_iff, implies_true, and_true]
  omega

include hn hs in
/-- No two fields overlap. -/
theorem headerWrites_apart : (headerWrites name namePrefix size typeflag).Pairwise Apart := by
  have hw := @headerWrites_windows name namePrefix size typeflag hs
  have h : ((headerWrites name namePrefix size typeflag).map fun w => (w.1, w.2.length)).Pairwise
      fun w w' => w.1 + w.2 ≤ w'.1 ∨ w'.1 + w'.2 ≤ w.1 := by
    rw [hw]
    simp only [pairwise_cons, forall_mem_cons, not_mem_nil, IsEmpty.forall_iff,
      implies_true, and_true, Pairwise.nil]
    omega
  rw [pairwise_map] at h
  exact h

include hn hp hs in
/-- A written field is read back, and the checksum that is written last touches only its own. -/
theorem slice_header_mem (hsum : sum.length = 8) {w : Nat × Bytes}
    (hw : w ∈ headerWrites name namePrefix size typeflag) (hc : w.1 ≠ 148) :
    slice (patch (fill (zeros 512) (headerWrites name namePrefix size typeflag)) 148 sum) w.1
      w.2.length = w.2 := by
  have hb := headerWrites_bound typeflag hn hp hs
  have happ : ∀ w ∈ headerWrites name namePrefix size typeflag,
      w.1 ≠ 148 → w.1 + w.2.length ≤ 148 ∨ 156 ≤ w.1 := by
    refine forall_headerWrites typeflag hs (P := fun o n => o ≠ 148 → o + n ≤ 148 ∨ 156 ≤ o) ?_
    simp only [forall_mem_cons, not_mem_nil, IsEmpty.forall_iff, implies_true, and_true]
    omega
  rw [slice_patch_disjoint, slice_fill_mem hb (headerWrites_apart typeflag hn hs) hw]
  · rw [length_fill hb, length_zeros]
    omega
  · rw [hsum]
    exact happ w hw hc

include hn hp hs in
/-- A window that meets no field holds zeros. -/
theorem slice_header_gap (hsum : sum.length = 8) {offset count : Nat}
    (hgap : ∀ w ∈ [(0, name.length), (100, 8), (108, 8), (116, 8), (124, 12), (136, 12), (148, 8),
      (156, 1), (257, 6), (263, 2), (345, namePrefix.length)],
      offset + count ≤ w.1 ∨ w.1 + w.2 ≤ offset) (hb : offset + count ≤ 512) :
    slice (patch (fill (zeros 512) (headerWrites name namePrefix size typeflag)) 148 sum) offset
      count = zeros count := by
  have hbound := headerWrites_bound typeflag hn hp hs
  rw [slice_patch_disjoint, slice_fill_disjoint hbound]
  · exact slice_replicate hb
  · exact forall_headerWrites typeflag hs (P := fun o n => offset + count ≤ o ∨ o + n ≤ offset) hgap
  · rw [length_fill hbound, length_zeros]
    omega
  · rw [hsum]
    exact hgap (148, 8) (by simp)

include hn hp hs in
theorem ustarBlock_headerWrites
    (hsum : byteSum (fill (zeros 512) (headerWrites name namePrefix size typeflag)) < 8 ^ 7) :
    Tar.UstarBlock (patch (fill (zeros 512) (headerWrites name namePrefix size typeflag)) 148
        (octalField 8 (byteSum (fill (zeros 512) (headerWrites name namePrefix size typeflag)))))
      name namePrefix size typeflag := by
  set filled := fill (zeros 512) (headerWrites name namePrefix size typeflag) with hfilled
  have hb := headerWrites_bound typeflag hn hp hs
  have hlen : filled.length = 512 := by rw [hfilled, length_fill hb, length_zeros]
  have hsl : (octalField 8 (byteSum filled)).length = 8 := length_octalField (by decide) hsum
  have hfield : ∀ o v n, (o, v) ∈ headerWrites name namePrefix size typeflag → o ≠ 148 →
      v.length = n → slice (patch filled 148 (octalField 8 (byteSum filled))) o n = v := by
    rintro o v _ hw hc rfl
    exact slice_header_mem typeflag hn hp hs hsl hw hc
  have hgap : ∀ o n, (∀ w ∈ [(0, name.length), (100, 8), (108, 8), (116, 8), (124, 12), (136, 12),
      (148, 8), (156, 1), (257, 6), (263, 2), (345, namePrefix.length)],
      o + n ≤ w.1 ∨ w.1 + w.2 ≤ o) → o + n ≤ 512 →
      slice (patch filled 148 (octalField 8 (byteSum filled))) o n = zeros n :=
    fun o n => slice_header_gap typeflag hn hp hs hsl
  have hspaces : slice filled 148 (replicate 8 (32 : UInt8)).length = replicate 8 32 :=
    slice_fill_mem hb (headerWrites_apart typeflag hn hs) (w := (148, replicate 8 32))
      (mem_of_getElem? (i := 6) rfl)
  clear_value filled
  constructor
  case length => rw [length_patch (by omega), hlen, blockSize]
  case name =>
    rw [show 100 = name.length + (100 - name.length) by omega, slice_add,
      hfield 0 name _ mem_cons_self (by decide) rfl, Nat.add_sub_cancel_left, hgap]
    · simp only [forall_mem_cons, not_mem_nil, IsEmpty.forall_iff, implies_true, and_true]
      omega
    · omega
  case mode =>
    exact hfield 100 (octalField 8 0o644) _ (mem_of_getElem? (i := 1) rfl) (by decide)
      (by decide)
  case uid =>
    exact hfield 108 (octalField 8 0) _ (mem_of_getElem? (i := 2) rfl) (by decide)
      (by decide)
  case gid =>
    exact hfield 116 (octalField 8 0) _ (mem_of_getElem? (i := 3) rfl) (by decide)
      (by decide)
  case size =>
    exact hfield 124 (octalField 12 size) _ (mem_of_getElem? (i := 4) rfl) (by decide)
      (length_octalField (by decide) hs)
  case mtime =>
    exact hfield 136 (octalField 12 0) _ (mem_of_getElem? (i := 5) rfl) (by decide)
      (by decide)
  case checksum =>
    have hc : checksum (patch filled 148 (octalField 8 (byteSum filled))) =
        byteSum filled := by
      rw [checksum, patch_patch_same (by rw [hsl, length_replicate]) (by omega),
        patch_slice_self (by rw [length_replicate]; omega) hspaces]
    rw [hc, slice_patch_same hsl (by omega)]
  case typeflag =>
    exact hfield 156 [typeflag] _ (mem_of_getElem? (i := 7) rfl) (by decide) rfl
  case linkname => exact hgap 157 100 (by simp; omega) (by omega)
  case magic =>
    refine (slice_add _ 257 6 2).trans ?_
    rw [hfield 257 [117, 115, 116, 97, 114, 0] 6 (mem_of_getElem? (i := 8) rfl) (by decide)
        rfl,
      hfield 263 [48, 48] 2 (mem_of_getElem? (i := 9) rfl) (by decide) rfl]
    rfl
  case owner => exact hgap 265 80 (by simp; omega) (by omega)
  case namePrefix =>
    rw [show 155 = namePrefix.length + (155 - namePrefix.length) by omega, slice_add,
      hfield 345 namePrefix _ (mem_of_getElem? (i := 10) rfl) (by decide) rfl,
      Nat.add_sub_cancel_left, hgap]
    · simp only [forall_mem_cons, not_mem_nil, IsEmpty.forall_iff, implies_true, and_true]
      omega
    · omega

end Fields

/-- A header is written only when the path has a ustar name and the size fits; the block then holds
the fields in their windows. -/
theorem tarUstarHeader_spec (h : tarUstarHeader path size [typeflag] = .ok block) :
    ∃ name namePrefix, ustarName path = .ok (name, namePrefix) ∧
      Tar.UstarBlock block name namePrefix size typeflag := by
  obtain ⟨name, namePrefix, hname, hn, hp, hs, hsum, hblock⟩ := tarUstarHeader_inv h
  refine ⟨name, namePrefix, hname, ?_⟩
  rw [hblock]
  exact ustarBlock_headerWrites typeflag hn hp hs hsum

theorem tarUstarHeader_length (h : tarUstarHeader path size [typeflag] = .ok block) :
    block.length = 512 := by
  obtain ⟨_, _, _, hblock⟩ := tarUstarHeader_spec h
  exact hblock.length

/-- The name and name prefix of a path that does not start with a slash spell the path. -/
theorem ustarName_spec {name namePrefix : Bytes} (hslash : ∃ c tail, path = c :: tail ∧ c ≠ '/')
    (h : ustarName path = .ok (name, namePrefix)) : encodeUtf8 path = joinName name namePrefix := by
  rw [ustarName] at h
  split_ifs at h with hl
  · obtain ⟨rfl, rfl⟩ := Prod.ext_iff.1 (ok.inj h)
    rfl
  · simp only at h
    split at h
    case h_2 => cases h
    case h_1 fields hf =>
      obtain ⟨index, hi, hfound⟩ := exists_of_findSome?_eq_some hf
      split_ifs at hfound with hfit
      rw [ok.injEq] at h
      rw [h, Option.some.injEq, Prod.mk.injEq] at hfound
      obtain ⟨rfl, rfl⟩ := hfound
      rw [mem_range'_1] at hi
      have hcut := joinWith_append '/'
        (show (path.splitOn '/').take index ≠ [] by
          rw [Ne, take_eq_nil_iff]; rintro (h | h) <;> simp_all)
        (show (path.splitOn '/').drop index ≠ [] by rw [Ne, drop_eq_nil_iff]; omega)
      have hpath : joinWith '/' (path.splitOn '/') = path := intercalate_splitOn '/'
      rw [take_append_drop, hpath] at hcut
      -- the part before the slash is not empty, for the path does not start with one
      have hne : encodeUtf8 (joinWith '/' ((path.splitOn '/').take index)) ≠ [] := by
        rw [Ne, encodeUtf8_eq_nil]
        intro he
        obtain ⟨c, tail, hp, hc⟩ := hslash
        rw [he, nil_append, hp] at hcut
        exact hc (cons.inj hcut).1
      rw [joinName, if_neg (by simpa using hne)]
      conv_lhs => rw [hcut]
      rw [encodeUtf8_append, encodeUtf8_cons]
      rfl

/-- The loop of `_pax_record` stops: adding the digits of a length to it makes the length at most
one digit longer, so the third turn finds a fixed point. -/
theorem paxRecordSize_terminates (n : Nat) :
    ∃ size, (∀ turns, paxRecordSize n (turns + 3) (n + (decimal n).length) = some size) ∧
      size = n + (decimal size).length := by
  set k := (decimal n).length with hk
  have hkpos : 0 < k := length_decimal_pos n
  have hn : n < 10 ^ k := (length_decimal_le_iff hkpos).1 le_rfl
  have hpow : k < 10 ^ k := Nat.lt_pow_self (by decide)
  have h₀ : k ≤ (decimal (n + k)).length := length_decimal_mono (by omega)
  have h₂ : (decimal (n + (k + 1))).length ≤ k + 1 :=
    (length_decimal_le_iff (by omega)).2 (by omega)
  have h₃ : (decimal (n + k)).length ≤ (decimal (n + (k + 1))).length :=
    length_decimal_mono (by omega)
  by_cases hd : (decimal (n + k)).length = k
  · refine ⟨n + k, fun turns => ?_, by rw [hd]⟩
    rw [paxRecordSize, hd, if_pos rfl]
  · have hd₁ : (decimal (n + k)).length = k + 1 := by omega
    have hd₂ : (decimal (n + (k + 1))).length = k + 1 := by omega
    refine ⟨n + (k + 1), fun turns => ?_, by rw [hd₂]⟩
    rw [paxRecordSize, hd₁, if_neg (by omega), paxRecordSize, hd₂, if_pos rfl]

theorem paxRecord_spec (key value : Text) :
    let suffix := encodeUtf8 (' ' :: key ++ '=' :: value ++ ['\n'])
    ∃ bytes, paxRecord key value = .ok bytes ∧
      Tar.IsRecord bytes (encodeUtf8 key) (encodeUtf8 value) ∧
      ∀ turns, paxRecordSize suffix.length (turns + 3)
        (suffix.length + (decimal suffix.length).length) = some bytes.length := by
  intro suffix
  have he : suffix = 32 :: encodeUtf8 key ++ 61 :: encodeUtf8 value ++ [10] := by
    simp only [suffix, encodeUtf8_append, encodeUtf8_cons, encodeUtf8_nil, cons_append]
    rfl
  have hl : suffix.length = suffix.length - 3 + 3 := by
    rw [he]
    simp only [length_append, length_cons, cons_append, length_nil]
    omega
  obtain ⟨size, hs, hfix⟩ := paxRecordSize_terminates suffix.length
  have hdigits : ∀ c ∈ decimal size, ∃ d < 10, c = Nat.digitChar d :=
    fun c hc => mem_toDigits (by decide) hc
  have hlen : (encodeUtf8 (decimal size) ++ suffix).length = size := by
    rw [length_append, encodeUtf8_digits hdigits, length_map]
    omega
  refine ⟨encodeUtf8 (decimal size) ++ suffix, ?_, ?_,
    fun turns => (hs turns).trans (congrArg some hlen.symm)⟩
  · have hloop := hs (suffix.length - 3)
    rw [← hl] at hloop
    simp only [paxRecord, suffix, hloop]
  · rw [Tar.IsRecord, hlen, he]
    simp only [append_assoc, cons_append]

/-- The loop of `_pax_record` stops within three turns, and the number at the start of the record
is the record's length. -/
theorem paxRecord_length_fixpoint (key value : Text) :
    let suffix := encodeUtf8 (' ' :: key ++ '=' :: value ++ ['\n'])
    ∃ record, paxRecord key value = .ok record ∧
      ofDecimal (record.takeWhile isDecimal) = record.length ∧
      ∀ turns, paxRecordSize suffix.length (turns + 3)
        (suffix.length + (decimal suffix.length).length) = some record.length := by
  obtain ⟨record, hrecord, hspec, hloop⟩ := paxRecord_spec key value
  obtain ⟨digits, -, -, hvalue, hstart⟩ := hspec.parts
  have hdigits := hstart []
  rw [append_nil] at hdigits
  exact ⟨record, hrecord, hdigits ▸ hvalue, hloop⟩

theorem paxRecord_eq_ok {key value : Text} {record : Bytes} (h : paxRecord key value = .ok record) :
    Tar.IsRecord record (encodeUtf8 key) (encodeUtf8 value) := by
  obtain ⟨bytes, hb, hrecord, -⟩ := paxRecord_spec key value
  rw [h] at hb
  rwa [ok.inj hb]

/-- The records of an extended header are read back. -/
theorem readRecords_paxPayload {attrs : List (Text × Text)} {payload : Bytes} {fuel : Nat}
    (h : paxPayload attrs = .ok payload) (hk : ∀ a ∈ attrs, 61 ∉ encodeUtf8 a.1)
    (hf : payload.length ≤ fuel) :
    readRecords fuel payload =
      some (attrs.map fun a => (encodeUtf8 a.1, encodeUtf8 a.2)) := by
  induction attrs generalizing payload fuel with
  | nil =>
    obtain rfl : [] = payload := by simpa [paxPayload] using h
    cases fuel <;> rfl
  | cons attr attrs ih =>
    obtain ⟨key, value⟩ := attr
    rw [paxPayload, bind_eq_ok] at h
    obtain ⟨record, hr, h⟩ := h
    rw [bind_eq_ok] at h
    obtain ⟨records, hrs, h⟩ := h
    obtain rfl : record ++ records = payload := by simpa [pure, Except.pure] using h
    have hrecord := paxRecord_eq_ok hr
    have hread := readRecord_of_isRecord hrecord (hk _ mem_cons_self) records
    have hne := hrecord.ne_nil
    obtain ⟨b, tail, hb⟩ := exists_cons_of_ne_nil hne
    rw [length_append] at hf
    have hpos := length_pos_iff.2 hne
    obtain ⟨fuel, rfl⟩ : ∃ k, fuel = k + 1 := ⟨fuel - 1, by omega⟩
    have hrest := ih hrs (fun a ha => hk a (mem_cons_of_mem _ ha)) (show records.length ≤ fuel by omega)
    have hstep : readRecords (fuel + 1) (record ++ records) = (do
        let r ← readRecord (record ++ records)
        let records ← readRecords fuel r.2
        return r.1 :: records) := by
      rw [hb, cons_append, readRecords]
      exact cons_ne_nil _ _
    rw [hstep, hread]
    simp [hrest]

/-- The fields of the path are free of NUL if the path is. -/
theorem zero_not_mem_of_joinName {path name namePrefix : Bytes} (hz : 0 ∉ path)
    (h : path = joinName name namePrefix) : 0 ∉ name ∧ 0 ∉ namePrefix := by
  rw [joinName] at h
  split_ifs at h with he
  · rw [List.isEmpty_iff] at he
    exact ⟨h ▸ hz, by simp [he]⟩
  · rw [h, mem_append, mem_cons] at hz
    exact ⟨fun hn => hz (.inr (.inr hn)), fun hp => hz (.inl hp)⟩

/-- A header block for a path without NUL is read back. -/
theorem readHeader_tarUstarHeader (h : tarUstarHeader path size [typeflag] = .ok block)
    (hslash : ∃ c tail, path = c :: tail ∧ c ≠ '/') (hz : '\x00' ∉ path) :
    block.length = 512 ∧ readHeader block = some ⟨encodeUtf8 path, size, typeflag⟩ := by
  obtain ⟨name, namePrefix, hname, hblock⟩ := tarUstarHeader_spec h
  have hpath := ustarName_spec hslash hname
  have hzero := zero_not_mem_of_joinName (zero_not_mem_encodeUtf8 hz) hpath
  refine ⟨hblock.length, ?_⟩
  rw [readHeader_of_ustarBlock hblock hzero.1 hzero.2, hpath]

/-- A path that names no root and holds no NUL: what every accepted path is. -/
structure Writable (path : Text) : Prop where
  /-- The path does not start with a slash. -/
  relative : ∃ c tail, path = c :: tail ∧ c ≠ '/'
  /-- The path holds no NUL. -/
  noNul : '\x00' ∉ path

theorem nul_not_mem_hex (b : Bytes) : '\x00' ∉ hex b := by
  intro h
  have hd := all_eq_true.1 (all_isHexDigit_hex b) _ h
  cases hd

/-- A fixed directory name before a digest is a path that can be written. -/
theorem writable_digest_path {directory : Text} (digest : Bytes) (hw : Writable directory) :
    Writable (directory ++ (hex digest).take 32) where
  relative := by
    obtain ⟨c, tail, rfl, hc⟩ := hw.relative
    exact ⟨c, tail ++ (hex digest).take 32, rfl, hc⟩
  noNul h := by
    rcases mem_append.1 h with h | h
    · exact hw.noNul h
    · exact nul_not_mem_hex digest (mem_of_mem_take h)

theorem writable_paxHeaderPath (path : Text) : Writable (paxHeaderPath path) :=
  writable_digest_path _ ⟨⟨_, _, rfl, by decide⟩, by decide⟩

theorem writable_paxPlaceholderPath (path : Text) : Writable (paxPlaceholderPath path) :=
  writable_digest_path _ ⟨⟨_, _, rfl, by decide⟩, by decide⟩

/-- The pax attributes restore what the file header could not hold. -/
theorem extendHeader_attrs (path : Text) (size : Nat) (typeflag : UInt8) :
    extendHeader ((tarFileHeaderValues path size).1.map fun a => (encodeUtf8 a.1, encodeUtf8 a.2))
      ⟨encodeUtf8 (tarFileHeaderValues path size).2.1, (tarFileHeaderValues path size).2.2,
        typeflag⟩ = some ⟨encodeUtf8 path, size, typeflag⟩ := by
  obtain ⟨hne, hall, hvalue⟩ := decimal_bytes size
  have hpathKey : encodeUtf8 "path" = pathKeyword := by decide
  have hsizeKey : encodeUtf8 "size" = sizeKeyword := by decide
  have hkeys : (pathKeyword == sizeKeyword) = false := by decide
  have hkeys' : (sizeKeyword == pathKeyword) = false := by decide
  rw [tarFileHeaderValues]
  cases hu : ustarName path <;> by_cases hs : size > tarUstarSizeMax <;>
    simp only [hs, if_true, if_false, nil_append, append_nil, singleton_append, map_cons, map_nil,
      hpathKey, hsizeKey, extendHeader, lookupRecord, reverse_cons, reverse_nil, find?_cons,
      find?_nil, hkeys, hkeys', beq_self_eq_true, Option.map_some, Option.map_none, ne_eq, hne,
      not_false_eq_true, hall, and_self, hvalue, Option.getD_some, Option.getD_none,
      Option.bind_eq_bind, Option.bind_some, pure]

theorem writable_fileHeaderPath (h : Writable path) (size : Nat) :
    Writable (tarFileHeaderValues path size).2.1 := by
  rw [tarFileHeaderValues]
  cases ustarName path with
  | ok fields => exact h
  | error e => exact writable_paxPlaceholderPath path

/-- The keywords of the attributes. -/
theorem attrs_key (path : Text) (size : Nat) :
    ∀ a ∈ (tarFileHeaderValues path size).1, a.1 = "path" ∨ a.1 = "size" := by
  intro a ha
  rw [tarFileHeaderValues] at ha
  cases hu : ustarName path <;> rw [hu] at ha <;> split_ifs at ha <;>
    simp only [nil_append, append_nil, mem_cons, mem_append, not_mem_nil, or_false] at ha
  · rcases ha with rfl | rfl
    · exact .inl rfl
    · exact .inr rfl
  · exact .inl (by rw [ha])
  · exact .inr (by rw [ha])

/-- Neither keyword holds an equals sign. -/
theorem attrs_keyword (path : Text) (size : Nat) :
    ∀ a ∈ (tarFileHeaderValues path size).1, (61 : UInt8) ∉ encodeUtf8 a.1 := by
  intro a ha
  rcases attrs_key path size a ha with h | h <;> rw [h] <;> decide

/-- A header is one block, or some more before it. -/
theorem tarHeader_length (h : tarHeader path size = .ok header) :
    header.length % tarBlockSize = 0 ∧ 0 < header.length := by
  simp only [tarHeader, bind_eq_ok] at h
  obtain ⟨fileHeader, hfile, h⟩ := h
  have hl := tarUstarHeader_length hfile
  split_ifs at h with he
  · rw [← ok.inj h, hl]
    decide
  · simp only [bind_eq_ok] at h
    obtain ⟨payload, -, block, hpax, h⟩ := h
    have hpl := tarUstarHeader_length hpax
    rw [← ok.inj h]
    simp only [length_append, hl, hpl, length_zeros, tarPadding, tarBlockSize]
    omega

/-- The header of a member, its data and its padding are read back as that member. -/
theorem tarHeader_encodes {content : Bytes} (hw : Writable path)
    (h : tarHeader path content.length = .ok header) :
    Tar.Encodes (header ++ content ++ zeros (tarPadding content.length)) header.length
      (encodeUtf8 path) content := by
  have hext := extendHeader_attrs path content.length 48
  have hfw := writable_fileHeaderPath hw content.length
  have hkeys := attrs_keyword path content.length
  rw [tarHeader] at h
  generalize tarFileHeaderValues path content.length = values at hext hfw hkeys h
  obtain ⟨attrs, filePath, fileSize⟩ := values
  simp only [bind_eq_ok] at h hext hfw hkeys
  obtain ⟨fileHeader, hfile, h⟩ := h
  obtain ⟨hfl, hfr⟩ := readHeader_tarUstarHeader hfile hfw.relative hfw.noNul
  rw [tarPadding_eq]
  by_cases he : attrs.isEmpty = true
  · rw [if_pos he] at h
    rw [List.isEmpty_iff] at he
    subst he
    obtain rfl : fileHeader = header := ok.inj h
    have heq : (⟨encodeUtf8 filePath, fileSize, 48⟩ : Tar.Header) =
        ⟨encodeUtf8 path, content.length, 48⟩ := Option.some.inj hext
    rw [heq] at hfr
    exact encodes_plain hfl hfr
  · rw [if_neg he] at h
    simp only [bind_eq_ok] at h
    obtain ⟨payload, hpayload, block, hblock, h⟩ := h
    have hpw := writable_paxHeaderPath path
    obtain ⟨hl, hr⟩ := readHeader_tarUstarHeader hblock hpw.relative hpw.noNul
    have hrecords := readRecords_paxPayload hpayload hkeys le_rfl
    have hheader : block ++ payload ++ zeros (tarPadding payload.length) ++ fileHeader = header :=
      ok.inj h
    rw [← hheader, tarPadding_eq]
    exact encodes_extended hl hr hrecords hfl hfr hext

end Riverhog.Pack
