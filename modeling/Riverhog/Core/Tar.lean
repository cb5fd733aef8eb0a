import Riverhog.Core.Utf8

/-!
# The ustar interchange format with pax extended headers

A reader for archives of regular files, written from the format and not from any
program that writes it: 512-byte header blocks with a checksum, octal numbers,
a name that a name prefix may extend, data rounded up to whole blocks, extended
headers of typeflag `x` whose `path` and `size` records replace the fields of the
header that follows, and two zero blocks at the end. Anything else is refused.

`Encodes` is the rule for writers: a byte string encodes a member when the reader
takes exactly it from the front of any archive, and an archive that is a
concatenation of encoded members is read back member by member.
-/

namespace Riverhog.Core.Tar

open List

/-- The size of a block. -/
def blockSize : Nat := 512

/-- How many zero bytes follow `size` bytes of data to fill the last block. -/
def padding (size : Nat) : Nat := (blockSize - size % blockSize) % blockSize

/-- A character field: the bytes before the first NUL. -/
def fieldText (block : Bytes) (offset count : Nat) : Bytes :=
  (slice block offset count).takeWhile (· != 0)

/-- Is the byte an octal digit? -/
def isOctal (b : UInt8) : Bool := 48 ≤ b && b ≤ 55

/-- The number that a string of octal digits spells. -/
def ofOctal (digits : Bytes) : Nat := digits.foldl (fun n b => n * 8 + (b.toNat - 48)) 0

/-- A numeric field: octal digits up to a NUL or a space. -/
def fieldOctal (block : Bytes) (offset count : Nat) : Option Nat :=
  let digits := (slice block offset count).takeWhile fun b => b != 0 && b != 32
  if digits.all isOctal then some (ofOctal digits) else none

/-- What a header block says about its member. -/
structure Header where
  /-- The member's path, prefix included. -/
  path : Bytes
  /-- The number of data bytes. -/
  size : Nat
  /-- `0` for a regular file, `x` for an extended header. -/
  typeflag : UInt8

/-- The sum that the checksum field records: it counts itself as eight spaces. -/
def checksum (block : Bytes) : Nat := byteSum (patch block 148 (replicate 8 32))

/-- Read a header block. -/
def readHeader (block : Bytes) : Option Header := do
  guard (block.length = blockSize)
  guard (slice block 257 8 = [117, 115, 116, 97, 114, 0, 48, 48])
  let sum ← fieldOctal block 148 8
  guard (sum = checksum block)
  let size ← fieldOctal block 124 12
  let typeflag ← block[156]?
  let name := fieldText block 0 100
  let namePrefix := fieldText block 345 155
  return ⟨if namePrefix.isEmpty then name else namePrefix ++ 47 :: name, size, typeflag⟩

/-! ## Extended headers -/

/-- Is the byte a decimal digit? -/
def isDecimal (b : UInt8) : Bool := 48 ≤ b && b ≤ 57

/-- The number that a string of decimal digits spells. -/
def ofDecimal (digits : Bytes) : Nat := digits.foldl (fun n b => n * 10 + (b.toNat - 48)) 0

/-- One record `length keyword=value\n`, whose length counts the whole record. -/
def readRecord (payload : Bytes) : Option ((Bytes × Bytes) × Bytes) :=
  let digits := payload.takeWhile isDecimal
  let count := ofDecimal digits
  match (payload.take count).drop digits.length with
  | 32 :: body =>
    let keyword := body.takeWhile (· != 61)
    if digits ≠ [] ∧ count ≤ payload.length ∧ body.getLast? = some 10 ∧
        keyword.length + 1 < body.length then
      some ((keyword, body.dropLast.drop (keyword.length + 1)), payload.drop count)
    else none
  | _ => none

/-- All records of an extended header. -/
def readRecords : Nat → Bytes → Option (List (Bytes × Bytes))
  | _, [] => some []
  | 0, _ => none
  | fuel + 1, payload => do
    let (record, rest) ← readRecord payload
    let records ← readRecords fuel rest
    return record :: records

/-- The keyword `path`. -/
def pathKeyword : Bytes := [112, 97, 116, 104]

/-- The keyword `size`. -/
def sizeKeyword : Bytes := [115, 105, 122, 101]

/-- The last value recorded for a keyword. -/
def lookupRecord (records : List (Bytes × Bytes)) (keyword : Bytes) : Option Bytes :=
  (records.reverse.find? (·.1 == keyword)).map Prod.snd

/-- Apply the records to the header that follows them. -/
def extendHeader (records : List (Bytes × Bytes)) (header : Header) : Option Header := do
  let size ← match lookupRecord records sizeKeyword with
    | none => some header.size
    | some digits => if digits ≠ [] ∧ digits.all isDecimal then some (ofDecimal digits) else none
  return { header with path := (lookupRecord records pathKeyword).getD header.path, size := size }

/-! ## Archives -/

/-- A member of an archive, with the places of its first header block and of its data. -/
structure Entry where
  /-- Where the member's first header block starts. -/
  headerOffset : Nat
  /-- Where the member's data starts. -/
  dataOffset : Nat
  /-- The member's path. -/
  path : Bytes
  /-- The recorded number of data bytes. -/
  size : Nat
  /-- The data. -/
  content : Bytes

/-- The header of the next member, and how many bytes its header blocks take. -/
def readMemberHeader (archive : Bytes) : Option (Header × Nat) := do
  let header ← readHeader (archive.take blockSize)
  if header.typeflag = 120 then
    let payload := slice archive blockSize header.size
    guard (payload.length = header.size)
    let records ← readRecords payload.length payload
    let skip := blockSize + header.size + padding header.size
    let header ← readHeader (slice archive skip blockSize)
    guard (header.typeflag = 48)
    let header ← extendHeader records header
    return (header, skip + blockSize)
  else
    guard (header.typeflag = 48)
    return (header, blockSize)

/-- The next member, and the archive after it. -/
def readMember (offset : Nat) (archive : Bytes) : Option (Entry × Bytes) := do
  let (header, count) ← readMemberHeader archive
  let content := slice archive count header.size
  guard (content.length = header.size)
  guard (slice archive (count + header.size) (padding header.size) = zeros (padding header.size))
  return (⟨offset, offset + count, header.path, header.size, content⟩,
    archive.drop (count + header.size + padding header.size))

/-- All members of an archive from `offset` on, up to the two zero blocks that end it. -/
def readMembers : Nat → Nat → Bytes → Option (List Entry)
  | 0, _, _ => none
  | fuel + 1, offset, archive =>
    if archive = zeros (2 * blockSize) then some []
    else do
      let (entry, rest) ← readMember offset archive
      let entries ← readMembers fuel (offset + (archive.length - rest.length)) rest
      return entry :: entries

/-- Read a whole archive. -/
def read (archive : Bytes) : Option (List Entry) := readMembers (archive.length + 1) 0 archive

/-! ## What a header block holds -/

/-- An octal field that fills its window: zero-padded digits and a NUL. -/
def octalField (count value : Nat) : Bytes := encodeUtf8 (zeroPadded 8 (count - 1) value) ++ [0]

variable {block bytes content keyword path value : Bytes} {count : Nat}

theorem length_octalField {value : Nat} (hc : 1 < count) (hv : value < 8 ^ (count - 1)) :
    (octalField count value).length = count := by
  have hd : ∀ c ∈ zeroPadded 8 (count - 1) value, ∃ d < 10, c = Nat.digitChar d := fun c hc => by
    obtain ⟨d, hd, he⟩ := mem_zeroPadded (by decide) hc
    exact ⟨d, by omega, he⟩
  rw [octalField, length_append, encodeUtf8_digits hd, length_map,
    length_zeroPadded (by decide) (by omega) hv, length_singleton]
  omega

/-- An octal field is its digits and a NUL. -/
theorem octalField_spec (count value : Nat) :
    ∃ digits, octalField count value = digits ++ [0] ∧ (∀ b ∈ digits, isOctal b = true) ∧
      ofOctal digits = value := by
  have hmem : ∀ c ∈ zeroPadded 8 (count - 1) value, ∃ d < 8, c = Nat.digitChar d :=
    fun c hc => mem_zeroPadded (by decide) hc
  have hten : ∀ c ∈ zeroPadded 8 (count - 1) value, ∃ d < 10, c = Nat.digitChar d := fun c hc => by
    obtain ⟨d, hd, he⟩ := hmem c hc
    exact ⟨d, by omega, he⟩
  refine ⟨encodeUtf8 (zeroPadded 8 (count - 1) value), rfl, ?_, ?_⟩
  · have hall : ∀ d < 8, isOctal (UInt8.ofNat (Nat.digitChar d).toNat) = true := by decide
    intro b hb
    rw [encodeUtf8_digits hten, mem_map] at hb
    obtain ⟨c, hc, rfl⟩ := hb
    obtain ⟨d, hd, rfl⟩ := hmem c hc
    exact hall d hd
  · rw [ofOctal, foldl_encodeUtf8_digits 8 0 hten, ofDigitChars_zeroPadded (by decide) (by decide)]

theorem isOctal_iff {b : UInt8} : isOctal b = true ↔ 48 ≤ b.toNat ∧ b.toNat ≤ 55 := by
  rw [isOctal, Bool.and_eq_true, decide_eq_true_iff, decide_eq_true_iff, UInt8.le_iff_toNat_le,
    UInt8.le_iff_toNat_le]
  rfl

/-- A byte of another value. -/
theorem ne_of_isOctal {b c : UInt8} (h : isOctal b = true) (hc : isOctal c = false) : b ≠ c := by
  rintro rfl
  rw [h] at hc
  cases hc

/-- A numeric field is read back. -/
theorem fieldOctal_of_slice {offset value : Nat}
    (h : slice block offset count = octalField count value) :
    fieldOctal block offset count = some value := by
  obtain ⟨digits, he, hoct, hvalue⟩ := octalField_spec count value
  have htake : (digits ++ [0]).takeWhile (fun b => b != 0 && b != 32) = digits := by
    rw [takeWhile_append_of_pos]
    · simp
    · intro b hb
      rw [Bool.and_eq_true, bne_iff_ne, bne_iff_ne]
      exact ⟨ne_of_isOctal (hoct b hb) rfl, ne_of_isOctal (hoct b hb) rfl⟩
  rw [fieldOctal, h, he]
  simp only [htake]
  rw [if_pos (all_eq_true.2 hoct), hvalue]

/-- A character field is read back. -/
theorem fieldText_of_slice {offset rest : Nat} (hz : 0 ∉ value)
    (h : slice block offset count = value ++ zeros rest) :
    fieldText block offset count = value := by
  have hv : ∀ b ∈ value, (b != 0) = true := fun b hb => by
    rw [bne_iff_ne]
    rintro rfl
    exact hz hb
  rw [fieldText, h, takeWhile_append_of_pos hv]
  cases rest <;> simp [zeros, replicate_succ]

/-- A header block with these fields, and zeros in every other one. -/
structure UstarBlock (block name namePrefix : Bytes) (size : Nat) (typeflag : UInt8) : Prop where
  length : block.length = blockSize
  name : slice block 0 100 = name ++ zeros (100 - name.length)
  mode : slice block 100 8 = octalField 8 0o644
  uid : slice block 108 8 = octalField 8 0
  gid : slice block 116 8 = octalField 8 0
  size : slice block 124 12 = octalField 12 size
  mtime : slice block 136 12 = octalField 12 0
  checksum : slice block 148 8 = octalField 8 (checksum block)
  typeflag : slice block 156 1 = [typeflag]
  linkname : slice block 157 100 = zeros 100
  magic : slice block 257 8 = [117, 115, 116, 97, 114, 0, 48, 48]
  owner : slice block 265 80 = zeros 80
  namePrefix : slice block 345 155 = namePrefix ++ zeros (155 - namePrefix.length)

/-- The path that a name and a name prefix spell. -/
def joinName (name namePrefix : Bytes) : Bytes :=
  if namePrefix.isEmpty then name else namePrefix ++ 47 :: name

/-- A header block is read back. -/
theorem readHeader_of_ustarBlock {name namePrefix : Bytes} {size : Nat} {typeflag : UInt8}
    (h : UstarBlock block name namePrefix size typeflag) (hn : 0 ∉ name) (hp : 0 ∉ namePrefix) :
    readHeader block = some ⟨joinName name namePrefix, size, typeflag⟩ := by
  have ht : block[156]? = some typeflag := by
    have hs := congrArg (·[0]?) h.typeflag
    simpa only [getElem?_slice, Nat.zero_lt_one, if_true, getElem?_cons_zero] using hs
  simp only [readHeader, h.length, h.magic, fieldOctal_of_slice h.checksum,
    fieldOctal_of_slice h.size, ht, fieldText_of_slice hn h.name,
    fieldText_of_slice hp h.namePrefix, guard, if_true, Option.bind_eq_bind, Option.bind_some, pure,
    joinName]

/-- A record whose length field counts the record itself. -/
def IsRecord (bytes keyword value : Bytes) : Prop :=
  bytes = encodeUtf8 (decimal bytes.length) ++ 32 :: keyword ++ 61 :: value ++ [10]

/-- The bytes of a decimal numeral. -/
theorem decimal_bytes (n : Nat) :
    encodeUtf8 (decimal n) ≠ [] ∧ (encodeUtf8 (decimal n)).all isDecimal = true ∧
      ofDecimal (encodeUtf8 (decimal n)) = n := by
  have hdigits : ∀ c ∈ decimal n, ∃ d < 10, c = Nat.digitChar d :=
    fun c hc => mem_toDigits (by decide) hc
  refine ⟨?_, ?_, ?_⟩
  · rw [Ne, encodeUtf8_eq_nil]
    exact decimal_ne_nil n
  · have hd : ∀ d < 10, isDecimal (UInt8.ofNat (Nat.digitChar d).toNat) = true := by decide
    rw [encodeUtf8_digits hdigits, all_eq_true]
    intro b hb
    obtain ⟨c, hc, rfl⟩ := mem_map.1 hb
    obtain ⟨d, hlt, rfl⟩ := hdigits c hc
    exact hd d hlt
  · rw [ofDecimal, foldl_encodeUtf8_digits 10 0 hdigits]
    exact Nat.ofDigitChars_ten_toDigits

/-- The parts of a record: the digits of its length and what follows them. -/
theorem IsRecord.parts (h : IsRecord bytes keyword value) :
    ∃ digits, digits ≠ [] ∧ bytes = digits ++ 32 :: (keyword ++ 61 :: (value ++ [10])) ∧
      ofDecimal digits = bytes.length ∧ ∀ rest, (bytes ++ rest).takeWhile isDecimal = digits := by
  obtain ⟨hne, hall, hvalue⟩ := decimal_bytes bytes.length
  have hb : bytes = encodeUtf8 (decimal bytes.length) ++
      32 :: (keyword ++ 61 :: (value ++ [10])) := by
    rw [IsRecord] at h
    simpa only [append_assoc, cons_append] using h
  refine ⟨encodeUtf8 (decimal bytes.length), hne, hb, hvalue, fun rest => ?_⟩
  generalize encodeUtf8 (decimal bytes.length) = digits at hb hall
  rw [hb, append_assoc, takeWhile_append_of_pos (all_eq_true.1 hall)]
  simp [isDecimal]

theorem IsRecord.ne_nil (h : IsRecord bytes keyword value) : bytes ≠ [] := by
  rw [IsRecord] at h
  rw [h]
  simp

theorem takeWhile_keyword (hk : 61 ∉ keyword) (rest : Bytes) :
    (keyword ++ 61 :: rest).takeWhile (· != 61) = keyword := by
  rw [takeWhile_append_of_pos]
  · simp
  · intro b hb
    rw [bne_iff_ne]
    rintro rfl
    exact hk hb

/-- A record is read back from the front of any payload. -/
theorem readRecord_of_isRecord (h : IsRecord bytes keyword value) (hk : 61 ∉ keyword)
    (rest : Bytes) : readRecord (bytes ++ rest) = some ((keyword, value), rest) := by
  obtain ⟨digits, hne, hb, hcount, htake⟩ := h.parts
  have hbody : ((bytes ++ rest).take bytes.length).drop digits.length =
      32 :: (keyword ++ 61 :: (value ++ [10])) := by
    rw [take_left]
    conv_lhs => rw [hb]
    rw [drop_left]
  have hlast : (keyword ++ 61 :: (value ++ [10])).getLast? = some 10 := by
    rw [show keyword ++ 61 :: (value ++ [10]) = (keyword ++ 61 :: value) ++ [10] by simp,
      getLast?_concat]
  have hvalue : (keyword ++ 61 :: (value ++ [10])).dropLast.drop (keyword.length + 1) = value := by
    rw [show keyword ++ 61 :: (value ++ [10]) = (keyword ++ 61 :: value) ++ [10] by simp,
      dropLast_concat, ← drop_drop, drop_left]
    rfl
  simp only [readRecord, htake, hcount, hbody, takeWhile_keyword hk, hvalue, drop_left]
  rw [if_pos ⟨hne, by simp, hlast, by simp⟩]

/-! ## The rule for writers -/

/-- The byte string is one member with this header length, path and content. -/
structure Encodes (bytes : Bytes) (headerLength : Nat) (path content : Bytes) : Prop where
  /-- The reader takes the member from the front of every archive. -/
  reads : ∀ offset rest, readMember offset (bytes ++ rest) =
    some (⟨offset, offset + headerLength, path, content.length, content⟩, rest)
  /-- A member has at least one block. -/
  nonempty : bytes ≠ []
  /-- A member does not look like the end of the archive. -/
  notEnd : ∀ rest, bytes ++ rest ≠ zeros (2 * blockSize)

theorem readHeader_zeros : readHeader (zeros blockSize) = none := by decide +kernel

/-- What starts with a header block is not the end of an archive. -/
theorem append_ne_zeros {header : Header} (hl : block.length = blockSize)
    (hr : readHeader block = some header) (rest : Bytes) :
    block ++ rest ≠ zeros (2 * blockSize) := by
  intro he
  have hb : block = zeros blockSize := by
    have ht := congrArg (take blockSize) he
    rwa [← hl, take_left, hl, zeros, take_replicate, Nat.min_eq_left (by omega)] at ht
  rw [hb, readHeader_zeros] at hr
  cases hr

/-- Data that a header announces is taken with its padding, and nothing more. -/
theorem readMember_append {head : Bytes}
    (h : ∀ tail, readMemberHeader (head ++ tail) = some (⟨path, content.length, 48⟩, head.length))
    (offset : Nat) (rest : Bytes) :
    readMember offset (head ++ content ++ zeros (padding content.length) ++ rest) =
      some (⟨offset, offset + head.length, path, content.length, content⟩, rest) := by
  have hdata := slice_append_middle head content (zeros (padding content.length) ++ rest)
  have hpad := slice_append_middle (head ++ content) (zeros (padding content.length)) rest
  have hdrop : (head ++ (content ++ (zeros (padding content.length) ++ rest))).drop
      (head.length + content.length + padding content.length) = rest := by
    rw [← drop_drop, ← drop_drop, drop_left, drop_left]
    exact drop_left' (length_zeros _)
  rw [append_assoc, length_append, length_zeros] at hpad
  simp only [append_assoc, readMember, h, Option.bind_eq_bind, Option.bind_some, hdata,
    hpad, hdrop, guard, if_true, pure]

/-- A header block for a regular file and its data are a member. -/
theorem encodes_plain (hl : block.length = blockSize)
    (hr : readHeader block = some ⟨path, content.length, 48⟩) :
    Encodes (block ++ content ++ zeros (padding content.length)) block.length path content where
  reads := by
    refine readMember_append fun tail => ?_
    rw [readMemberHeader, ← hl, take_left, hr]
    rfl
  nonempty he := by
    obtain rfl : block = [] := by simp_all
    cases hl
  notEnd rest := by
    rw [append_assoc, append_assoc]
    exact append_ne_zeros hl hr _

/-- An extended header, the header block it extends and the data are a member. -/
theorem encodes_extended {payload fileBlock name fileName : Bytes} {fileSize : Nat}
    {records : List (Bytes × Bytes)} (hl : block.length = blockSize)
    (hr : readHeader block = some ⟨name, payload.length, 120⟩)
    (hrecords : readRecords payload.length payload = some records)
    (hfl : fileBlock.length = blockSize)
    (hfr : readHeader fileBlock = some ⟨fileName, fileSize, 48⟩)
    (hext : extendHeader records ⟨fileName, fileSize, 48⟩ = some ⟨path, content.length, 48⟩) :
    Encodes (block ++ payload ++ zeros (padding payload.length) ++ fileBlock ++ content ++
        zeros (padding content.length))
      (block ++ payload ++ zeros (padding payload.length) ++ fileBlock).length path content where
  reads := by
    refine readMember_append fun tail => ?_
    have hskip : (block ++ payload ++ zeros (padding payload.length)).length =
        blockSize + payload.length + padding payload.length := by
      simp only [length_append, length_zeros, hl]
    have hpayload := slice_append_middle block payload
      (zeros (padding payload.length) ++ (fileBlock ++ tail))
    have hfile := slice_append_middle (block ++ payload ++ zeros (padding payload.length)) fileBlock
      tail
    rw [hskip, hfl] at hfile
    simp only [append_assoc] at hfile ⊢
    rw [hl] at hpayload
    rw [readMemberHeader, ← hl, take_left, hr, hl]
    simp only [Option.bind_eq_bind, Option.bind_some, if_true, hpayload, guard, hrecords, hfile,
      hfr, hext, pure]
    simp only [length_append, length_zeros, hl, hfl, Nat.add_assoc]
  nonempty he := by
    obtain rfl : block = [] := by simp_all
    cases hl
  notEnd rest := by
    simp only [append_assoc]
    exact append_ne_zeros hl hr _

/-- A member as written: its encoding, header length, path and content. -/
structure Member where
  /-- The encoded member. -/
  bytes : Bytes
  /-- The number of header bytes. -/
  headerLength : Nat
  /-- The member's path. -/
  path : Bytes
  /-- The data. -/
  content : Bytes
  /-- The encoding is read back. -/
  encodes : Encodes bytes headerLength path content

/-- The entries of consecutive members, the first at `offset`. -/
def entriesFrom : Nat → List Member → List Entry
  | _, [] => []
  | offset, m :: members =>
    ⟨offset, offset + m.headerLength, m.path, m.content.length, m.content⟩ ::
      entriesFrom (offset + m.bytes.length) members

theorem readMembers_flatMap (members : List Member) {fuel : Nat} (hf : members.length < fuel)
    (offset : Nat) :
    readMembers fuel offset (members.flatMap Member.bytes ++ zeros (2 * blockSize)) =
      some (entriesFrom offset members) := by
  induction members generalizing fuel offset with
  | nil =>
    cases fuel with
    | zero => simp at hf
    | succ fuel => simp [readMembers, entriesFrom]
  | cons m members ih =>
    cases fuel with
    | zero => simp at hf
    | succ fuel =>
      rw [length_cons, Nat.succ_lt_succ_iff] at hf
      set rest := members.flatMap Member.bytes ++ zeros (2 * blockSize) with hrest
      have hlen : (m.bytes ++ rest).length - rest.length = m.bytes.length := by
        rw [length_append]
        omega
      rw [flatMap_cons, append_assoc, ← hrest, readMembers,
        if_neg (m.encodes.notEnd rest), m.encodes.reads]
      simp only [Option.bind_eq_bind, Option.bind_some, hlen, ih hf, pure, entriesFrom]

theorem length_le_flatMap (members : List Member) :
    members.length ≤ (members.flatMap Member.bytes).length := by
  induction members with
  | nil => exact Nat.zero_le _
  | cons m members ih =>
    have hm := length_pos_iff.2 m.encodes.nonempty
    rw [flatMap_cons, length_append, length_cons]
    omega

/-- An archive of encoded members is read back member by member. -/
theorem read_flatMap (members : List Member) :
    read (members.flatMap Member.bytes ++ zeros (2 * blockSize)) =
      some (entriesFrom 0 members) := by
  have hl := length_le_flatMap members
  exact readMembers_flatMap members (by rw [length_append]; omega) 0

end Riverhog.Core.Tar
