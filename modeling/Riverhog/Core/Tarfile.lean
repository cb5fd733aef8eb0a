import Riverhog.Core.Tar

/-!
# Reading archives as Python's `tarfile` does

`TarFile.getmembers` on a plain archive, as far as regular members and extended
headers go: the module reads a header block, checks its sum against both the
unsigned and the signed one, follows an extended header to the header it describes,
and stops without complaint at the first block that is not a header. Names are kept
as bytes: decoding with surrogate escapes loses nothing of them. Members of the GNU
and global header types are outside this model, and reading one is an error of its
own.
-/

namespace Riverhog.Core.Tarfile

open Tar List

/-- The exceptions that `TarInfo.fromtarfile` raises. -/
inductive HeaderError where
  | emptyHeader | truncatedHeader | eofHeader | invalidHeader | subsequentHeader
  /-- A member type or keyword that this model leaves out. -/
  | unmodelled
  deriving DecidableEq

/-- What `getmembers` reports about a member. -/
structure TarInfo where
  name : Bytes
  size : Int
  type : UInt8
  offset : Nat
  offsetData : Nat
  deriving DecidableEq

/-- `nts`: the bytes before the first NUL. -/
def nts (s : Bytes) : Bytes := s.takeWhile (· != 0)

/-- Is the byte white space for `str.strip`? -/
def isSpaceByte (b : UInt8) : Bool := (9 ≤ b && b ≤ 13) || (28 ≤ b && b ≤ 32)

/-- `s.strip()`. -/
def stripBytes (s : Bytes) : Bytes :=
  ((s.dropWhile isSpaceByte).reverse.dropWhile isSpaceByte).reverse

/-- `nti`: a number field in octal digits or in base 256. -/
def nti (s : Bytes) : Option Int :=
  if s.head? = some 0o200 then some (ofBigEndian s.tail)
  else if s.head? = some 0o377 then some (-(256 ^ s.tail.length - ofBigEndian s.tail))
  else
    let digits := stripBytes (nts s)
    if digits.all isOctal then some (ofOctal digits) else none

/-- The first of `calc_chksums`. -/
def unsignedChksum (buf : Bytes) : Nat := 256 + byteSum (slice buf 0 148) + byteSum (slice buf 156 356)

/-- The second of `calc_chksums`. -/
def signedChksum (buf : Bytes) : Int :=
  256 + ((slice buf 0 148 ++ slice buf 156 356).map fun b =>
    if b.toNat < 128 then (b.toNat : Int) else b.toNat - 256).sum

/-- The header fields that matter here. -/
structure Header where
  name : Bytes
  size : Int
  type : UInt8
  deriving DecidableEq

/-- `rstrip("/")`. -/
def rstripSlash (s : Bytes) : Bytes := (s.reverse.dropWhile (· == 47)).reverse

/-- The types `L`, `K` and `S`. -/
def gnuTypes : List UInt8 := [76, 75, 83]

/-- `TarInfo.frombuf`. -/
def frombuf (buf : Bytes) : Except HeaderError Header :=
  if buf = [] then .error .emptyHeader
  else if buf.length ≠ 512 then .error .truncatedHeader
  else if buf.all (· == 0) then .error .eofHeader
  else
    match nti (slice buf 148 8), nti (slice buf 100 8), nti (slice buf 108 8), nti (slice buf 116 8),
      nti (slice buf 124 12), nti (slice buf 136 12), nti (slice buf 329 8), nti (slice buf 337 8),
      buf[156]? with
    | some chksum, some _, some _, some _, some size, some _, some _, some _, some type =>
      if chksum = unsignedChksum buf ∨ chksum = signedChksum buf then
        let name := nts (slice buf 0 100)
        let namePrefix := nts (slice buf 345 155)
        let type := if type = 0 ∧ name.getLast? = some 47 then 53 else type
        let name := if type = 53 then rstripSlash name else name
        .ok ⟨if namePrefix ≠ [] ∧ type ∉ gnuTypes then namePrefix ++ 47 :: name else name, size,
          type⟩
      else .error .invalidHeader
    | _, _, _, _, _, _, _, _, _ => .error .invalidHeader

/-- `_block`: whole blocks. -/
def block (count : Int) : Except HeaderError Nat :=
  if count < 0 then .error .invalidHeader else .ok (count.toNat + padding count.toNat)

/-- Does the member have data? Links, directories and devices do not. -/
def hasData (type : UInt8) : Bool := !(49 ≤ type && type ≤ 54)

/-- The number of blocks that the data takes. -/
def dataBlocks (type : UInt8) (size : Int) : Except HeaderError Nat :=
  if hasData type then block size else .ok 0

/-- The records of an extended header, up to a NUL. -/
def paxRecords : Nat → Bytes → Except HeaderError (List (Bytes × Bytes))
  | 0, _ => .error .invalidHeader
  | fuel + 1, buf =>
    if buf.head? = none ∨ buf.head? = some 0 then .ok []
    else
      let digits := buf.takeWhile isDecimal
      let length := ofDecimal digits
      let keywordAndValue := slice buf (digits.length + 1) (length - 1 - (digits.length + 1))
      let keyword := keywordAndValue.takeWhile (· != 61)
      if digits ≠ [] ∧ buf[digits.length]? = some 32 ∧ 5 ≤ length ∧ length ≤ buf.length ∧
          keyword ≠ [] ∧ keywordAndValue[keyword.length]? = some 61 ∧
          buf[length - 1]? = some 10 then
        match paxRecords fuel (buf.drop length) with
        | .error e => .error e
        | .ok records => .ok ((keyword, keywordAndValue.drop (keyword.length + 1)) :: records)
      else .error .invalidHeader

/-- `_apply_pax_info`: the name and the size that the records give. -/
def applyPaxInfo (records : List (Bytes × Bytes)) (info : TarInfo) : Except HeaderError TarInfo :=
  let named := match lookupRecord records pathKeyword with
    | some path => { info with name := rstripSlash path }
    | none => info
  match lookupRecord records sizeKeyword with
  | some digits =>
    if digits ≠ [] ∧ digits.all isDecimal then .ok { named with size := ofDecimal digits }
    else .error .unmodelled
  | none => .ok named

/-- `TarInfo.fromtarfile` at `offset`: the member there, and where the next header is. -/
def fromtarfile (archive : Bytes) : Nat → Nat → Except HeaderError (TarInfo × Nat)
  | 0, _ => .error .invalidHeader
  | fuel + 1, offset => do
    let header ← frombuf (slice archive offset 512)
    if header.type ∈ 103 :: gnuTypes then .error .unmodelled
    else if header.type = 120 ∨ header.type = 88 then do
      let count ← block header.size
      let buf := slice archive (offset + 512) count
      let records ← paxRecords (buf.length + 1) buf
      if records.any fun r => "GNU.sparse".toList.map (UInt8.ofNat ·.toNat) <+: r.1 then
        .error .unmodelled
      else
        match fromtarfile archive fuel (offset + 512 + buf.length) with
        | .error .unmodelled => .error .unmodelled
        | .error _ => .error .subsequentHeader
        | .ok (next, nextOffset) => do
          let info ← applyPaxInfo records next
          let info := { info with offset := offset }
          if (lookupRecord records sizeKeyword).isSome then
            let blocks ← dataBlocks info.type info.size
            return (info, info.offsetData + blocks)
          else return (info, nextOffset)
    else do
      let blocks ← dataBlocks header.type header.size
      return (⟨header.name, header.size, header.type, offset, offset + 512⟩, offset + 512 + blocks)

/-- The exceptions that `getmembers` raises. -/
inductive ReadError where
  | readError | unmodelled
  deriving DecidableEq

/-- `TarFile.next` at `offset`. -/
def next (archive : Bytes) (offset : Nat) : Except ReadError (Option (TarInfo × Nat)) :=
  if offset ≠ 0 ∧ archive.length < offset then .error .readError
  else
    match fromtarfile archive (archive.length + 1) offset with
    | .ok found => .ok (some found)
    | .error .eofHeader => .ok none
    | .error .subsequentHeader => .error .readError
    | .error .unmodelled => .error .unmodelled
    | .error _ => if offset = 0 then .error .readError else .ok none

/-- The loop of `getmembers`. -/
def loadFrom (archive : Bytes) : Nat → Nat → Except ReadError (List TarInfo)
  | 0, _ => .error .readError
  | fuel + 1, offset => do
    match ← next archive offset with
    | none => .ok []
    | some (info, offset) => do
      let infos ← loadFrom archive fuel offset
      return info :: infos

/-- `TarFile.getmembers`. -/
def getmembers (archive : Bytes) : Except ReadError (List TarInfo) :=
  loadFrom archive (archive.length + 1) 0

/-! ## Header blocks -/

/-- An octal field is read back. -/
theorem nti_octalField {count value : Nat} : nti (octalField count value) = some (value : Int) := by
  obtain ⟨digits, he, hoct, hvalue⟩ := octalField_spec count value
  have hspace : ∀ b ∈ digits, isSpaceByte b = false := by
    intro b hb
    obtain ⟨h₁, h₂⟩ := isOctal_iff.1 (hoct b hb)
    have hall : ∀ n < 256, 48 ≤ n → n ≤ 55 → isSpaceByte (UInt8.ofNat n) = false := by
      decide +kernel
    rw [← UInt8.ofNat_toNat (x := b)]
    exact hall _ b.toNat_lt h₁ h₂
  have hstrip : stripBytes digits = digits := by
    rw [stripBytes, dropWhile_eq_self_of_forall hspace, dropWhile_eq_self_of_forall,
      reverse_reverse]
    intro b hb
    exact hspace b (mem_reverse.1 hb)
  have hnts : nts (digits ++ [0]) = digits := by
    rw [nts, takeWhile_append_of_pos]
    · simp
    · intro b hb
      rw [bne_iff_ne]
      exact ne_of_isOctal (hoct b hb) rfl
  have hhead : ∀ c : UInt8, isOctal c = false → c ≠ 0 → (digits ++ [0]).head? ≠ some c := by
    intro c hc hz
    cases digits with
    | nil =>
      rw [nil_append, head?_cons, Ne, Option.some.injEq]
      exact Ne.symm hz
    | cons b digits =>
      rw [cons_append, head?_cons, Ne, Option.some.injEq]
      exact ne_of_isOctal (hoct b mem_cons_self) hc
  rw [he, nti, if_neg (hhead _ rfl (by decide)), if_neg (hhead _ rfl (by decide)), hnts]
  rw [hstrip, if_pos (all_eq_true.2 hoct), hvalue]

/-- A field of zeros is the number zero. -/
theorem nti_zeros (count : Nat) : nti (zeros count) = some 0 := by
  cases count with
  | zero => rfl
  | succ count =>
    have hnts : nts (zeros (count + 1)) = [] := by
      rw [nts, zeros, replicate_succ]
      rfl
    rw [nti, zeros, replicate_succ, head?_cons, if_neg (by decide), if_neg (by decide),
      ← replicate_succ, ← zeros, hnts]
    rfl

theorem nts_append_zeros (value : Bytes) (rest : Nat) : nts (value ++ zeros rest) = nts value := by
  induction value with
  | nil =>
    cases rest with
    | zero => rfl
    | succ rest =>
      rw [nil_append, nts, zeros, replicate_succ]
      rfl
  | cons b value ih =>
    rw [cons_append, nts, nts, takeWhile_cons, takeWhile_cons]
    rw [nts, nts] at ih
    rw [ih]

/-- The sum that Python computes is the one that the format defines. -/
theorem unsignedChksum_eq {block : Bytes} (h : block.length = 512) :
    unsignedChksum block = checksum block := by
  have hrest : slice block 156 356 = block.drop 156 := by
    rw [slice, take_of_length_le]
    rw [length_drop]
    omega
  have hspaces : byteSum (replicate 8 32) = 256 := rfl
  rw [unsignedChksum, checksum, patch, hrest, slice, drop_zero]
  simp only [byteSum, map_append, sum_append, length_replicate, Nat.reduceAdd] at hspaces ⊢
  omega

variable {name namePrefix : Bytes} {records : List (Bytes × Bytes)} {size : Nat}

/-- A header block that the format describes is read with its name and size. -/
theorem frombuf_of_ustarBlock {block : Bytes} {typeflag : UInt8}
    (h : Tar.UstarBlock block name namePrefix size typeflag) (ht : typeflag ∈ [48, 120]) :
    frombuf block = .ok ⟨joinName (nts name) (nts namePrefix), size, typeflag⟩ := by
  have hne : block ≠ [] := by
    rintro rfl
    cases h.length
  have hzero : ¬ block.all (· == 0) = true := by
    intro hall
    have hmem : (117 : UInt8) ∈ block := by
      have hm : (117 : UInt8) ∈ slice block 257 8 := by
        rw [h.magic]
        exact mem_cons_self
      exact mem_of_mem_drop (mem_of_mem_take hm)
    have h0 := all_eq_true.1 hall _ hmem
    cases h0
  have htype : block[156]? = some typeflag := by
    have hs := congrArg (·[0]?) h.typeflag
    simpa only [getElem?_slice, Nat.zero_lt_one, if_true, getElem?_cons_zero] using hs
  have howner : ∀ o, o + 8 ≤ 80 → slice block (265 + o) 8 = zeros 8 := by
    intro o ho
    rw [← slice_slice ho, h.owner, zeros, slice_replicate ho]
    rfl
  have hgnu : typeflag ∉ gnuTypes ∧ typeflag ≠ 0 ∧ typeflag ≠ 53 := by
    rcases mem_pair.1 ht with rfl | rfl <;> decide
  rw [frombuf, if_neg hne, if_neg (by rw [h.length]; decide), if_neg hzero, h.checksum, h.mode,
    h.uid, h.gid, h.size, h.mtime, htype, howner 64 (by decide), howner 72 (by decide), nti_zeros]
  simp only [nti_octalField, h.name, h.namePrefix, nts_append_zeros, unsignedChksum_eq h.length,
    true_or, if_true, hgnu, false_and, if_false, and_true, not_false_eq_true, joinName]
  cases nts namePrefix <;> rfl

/-! ## Members -/

/-- A record is read back from the front of any payload. -/
theorem paxRecords_append {bytes keyword value : Bytes} (h : Tar.IsRecord bytes keyword value)
    (hk : 61 ∉ keyword) (hne : keyword ≠ []) (fuel : Nat) (rest : Bytes)
    (hr : paxRecords fuel rest = .ok records) :
    paxRecords (fuel + 1) (bytes ++ rest) = .ok ((keyword, value) :: records) := by
  obtain ⟨digits, hd, hb, hcount, htake⟩ := h.parts
  have hlen : bytes.length = digits.length + (keyword.length + value.length + 3) := by
    rw [hb]
    simp only [length_append, length_cons, length_nil]
    omega
  have hdpos := length_pos_iff.2 hd
  have hkpos := length_pos_iff.2 hne
  have hbuf : bytes ++ rest = (digits ++ [32]) ++ ((keyword ++ 61 :: value) ++ (10 :: rest)) := by
    rw [hb]
    simp
  have hhead : ¬ ((bytes ++ rest).head? = none ∨ (bytes ++ rest).head? = some 0) := by
    obtain ⟨d, digits, rfl⟩ := exists_cons_of_ne_nil hd
    have hdec : isDecimal d = true := by
      have hm : d ∈ (bytes ++ rest).takeWhile isDecimal := by
        rw [htake]
        exact mem_cons_self
      exact all_eq_true.1 all_takeWhile d hm
    rw [hbuf, cons_append, cons_append, head?_cons]
    rintro (h | h)
    · cases h
    · rw [Option.some.inj h] at hdec
      cases hdec
  have hkv : slice (bytes ++ rest) (digits.length + 1) (bytes.length - 1 - (digits.length + 1)) =
      keyword ++ 61 :: value := by
    have hs := slice_append_middle (digits ++ [32]) (keyword ++ 61 :: value) (10 :: rest)
    rw [← hbuf, length_append, length_append, length_singleton, length_cons] at hs
    rw [show bytes.length - 1 - (digits.length + 1) = keyword.length + (value.length + 1) by omega,
      hs]
  have hspace : (bytes ++ rest)[digits.length]? = some 32 := by
    rw [hbuf, append_assoc, getElem?_append_right le_rfl, Nat.sub_self]
    rfl
  have hend : (bytes ++ rest)[bytes.length - 1]? = some 10 := by
    rw [hbuf, ← append_assoc, getElem?_append_right] <;>
      simp only [length_append, length_cons, length_nil]
    · rw [show bytes.length - 1 - (digits.length + (0 + 1) + (keyword.length + (value.length + 1))) =
        0 by omega]
      rfl
    · omega
  have hequals : (keyword ++ 61 :: value)[keyword.length]? = some 61 := by
    rw [getElem?_append_right le_rfl, Nat.sub_self]
    rfl
  have hfits : bytes.length ≤ (bytes ++ rest).length := by
    rw [length_append]
    omega
  rw [paxRecords, if_neg hhead, htake]
  dsimp only
  rw [hcount, hkv, takeWhile_keyword hk, drop_left, hr,
    if_pos ⟨hd, hspace, by omega, hfits, hne, hequals, hend⟩]
  simp

/-- Zeros end the records. -/
theorem paxRecords_zeros (fuel count : Nat) : paxRecords (fuel + 1) (zeros count) = .ok [] := by
  rw [paxRecords, if_pos]
  cases count with
  | zero => exact .inl rfl
  | succ count => exact .inr rfl

/-- The byte string is one regular member with this header length, name and size. -/
structure Reads (bytes : Bytes) (headerLength : Nat) (name : Bytes) (size : Nat) : Prop where
  /-- The member is found wherever it stands, and the next header is looked for after it. -/
  reads : ∀ before rest fuel, 2 ≤ fuel →
    fromtarfile (before ++ (bytes ++ rest)) fuel before.length =
      .ok (⟨name, size, 48, before.length, before.length + headerLength⟩,
        before.length + bytes.length)
  /-- A member has at least one block. -/
  nonempty : bytes ≠ []

theorem block_natCast (n : Nat) : block n = .ok (n + padding n) := by
  rw [block, if_neg (by omega), Int.toNat_natCast]

theorem dataBlocks_regular (n : Nat) : dataBlocks 48 n = .ok (n + padding n) := by
  rw [dataBlocks, if_pos (by decide), block_natCast]

/-- A regular header at `offset`. -/
theorem fromtarfile_regular {archive : Bytes} {offset : Nat} (fuel : Nat)
    (h : frombuf (slice archive offset 512) = .ok ⟨name, size, 48⟩) :
    fromtarfile archive (fuel + 1) offset =
      .ok (⟨name, size, 48, offset, offset + 512⟩, offset + 512 + (size + padding size)) := by
  rw [fromtarfile, h, ok_bind]
  dsimp only
  rw [if_neg (by decide), if_neg (by decide), dataBlocks_regular, ok_bind]
  rfl

/-- An extended header at `offset`, and the header that it extends. -/
theorem fromtarfile_pax {archive buf : Bytes} {offset fuel nextOffset : Nat} {next info : TarInfo}
    (h : frombuf (slice archive offset 512) = .ok ⟨name, size, 120⟩)
    (hbuf : slice archive (offset + 512) (size + padding size) = buf)
    (hrecords : paxRecords (buf.length + 1) buf = .ok records)
    (hgnu : ∀ r ∈ records, ¬ "GNU.sparse".toList.map (UInt8.ofNat ·.toNat) <+: r.1)
    (hnext : fromtarfile archive fuel (offset + 512 + buf.length) = .ok (next, nextOffset))
    (hpax : applyPaxInfo records next = .ok info) :
    fromtarfile archive (fuel + 1) offset = do
      let info := { info with offset := offset }
      if (lookupRecord records sizeKeyword).isSome then
        let blocks ← dataBlocks info.type info.size
        return (info, info.offsetData + blocks)
      else return (info, nextOffset) := by
  have hany : ¬ (records.any fun r =>
      "GNU.sparse".toList.map (UInt8.ofNat ·.toNat) <+: r.1) = true := by
    simpa only [any_eq_true, decide_eq_true_eq, not_exists, not_and] using hgnu
  rw [fromtarfile, h, ok_bind]
  dsimp only
  rw [if_neg (by decide), if_pos (.inl rfl), block_natCast, ok_bind, hbuf, hrecords, ok_bind, if_neg hany, hnext]
  dsimp only
  rw [hpax, ok_bind]

/-- A header block for a regular file and its data are a member. -/
theorem reads_plain {block content : Bytes}
    (h : Tar.UstarBlock block name namePrefix content.length 48) :
    Reads (block ++ content ++ zeros (padding content.length)) block.length
      (joinName (nts name) (nts namePrefix)) content.length where
  reads before rest fuel hfuel := by
    obtain ⟨fuel, rfl⟩ : ∃ k, fuel = k + 1 := ⟨fuel - 1, by omega⟩
    have hl : block.length = 512 := h.length
    have hblock := slice_append_middle before block
      (content ++ (zeros (padding content.length) ++ rest))
    rw [hl] at hblock
    have hread := frombuf_of_ustarBlock h (by decide)
    rw [← hblock] at hread
    simp only [append_assoc]
    rw [fromtarfile_regular fuel hread]
    simp only [length_append, length_zeros, hl, Nat.add_assoc]
  nonempty he := by
    have hl := h.length
    rw [append_assoc, append_eq_nil_iff] at he
    rw [he.1] at hl
    cases hl

/-- An extended header, the header block it extends and the data are a member. -/
theorem reads_extended {block payload fileBlock fileName filePrefix path content :
    Bytes} {fileSize : Nat} (h : Tar.UstarBlock block name namePrefix payload.length 120)
    (hrecords : ∀ count, paxRecords (payload.length + count + 1) (payload ++ zeros count) =
      .ok records) (hgnu : ∀ r ∈ records, ¬ "GNU.sparse".toList.map (UInt8.ofNat ·.toNat) <+: r.1)
    (hf : Tar.UstarBlock fileBlock fileName filePrefix fileSize 48)
    (hsize : (lookupRecord records sizeKeyword).isSome ∨ fileSize = content.length)
    (hpax : ∀ offset offsetData, applyPaxInfo records
      ⟨joinName (nts fileName) (nts filePrefix), fileSize, 48, offset, offsetData⟩ =
        .ok ⟨path, content.length, 48, offset, offsetData⟩) :
    Reads (block ++ payload ++ zeros (padding payload.length) ++ fileBlock ++ content ++
        zeros (padding content.length))
      (block ++ payload ++ zeros (padding payload.length) ++ fileBlock).length path
      content.length where
  reads before rest fuel hfuel := by
    obtain ⟨fuel, rfl⟩ : ∃ k, fuel = k + 2 := ⟨fuel - 2, by omega⟩
    have hl : block.length = 512 := h.length
    have hfl : fileBlock.length = 512 := hf.length
    set tail := content ++ (zeros (padding content.length) ++ rest) with htail
    set buf := payload ++ zeros (padding payload.length) with hbuf
    have hbl : buf.length = payload.length + padding payload.length := by
      rw [hbuf, length_append, length_zeros]
    have harchive : before ++ (block ++ payload ++ zeros (padding payload.length) ++ fileBlock ++
        content ++ zeros (padding content.length) ++ rest) =
          before ++ (block ++ (buf ++ (fileBlock ++ tail))) := by
      simp only [htail, hbuf, append_assoc]
    have hblock := slice_append_middle before block (buf ++ (fileBlock ++ tail))
    have hpayload := slice_append_middle (before ++ block) buf (fileBlock ++ tail)
    have hfile := slice_append_middle (before ++ block ++ buf) fileBlock tail
    rw [hl] at hblock
    rw [append_assoc, length_append, hl] at hpayload
    rw [append_assoc, append_assoc, length_append, length_append, hl, hfl] at hfile
    rw [harchive]
    have hread := frombuf_of_ustarBlock h (by decide)
    have hfread := frombuf_of_ustarBlock hf (by decide)
    rw [← hblock] at hread
    rw [← hfile] at hfread
    rw [hbl] at hpayload
    have hrec := hrecords (padding payload.length)
    rw [← hbuf, ← hbl] at hrec
    rw [fromtarfile_pax hread hpayload hrec hgnu (fromtarfile_regular fuel hfread) (hpax _ _)]
    have hheader : (block ++ payload ++ zeros (padding payload.length) ++ fileBlock).length =
        512 + buf.length + 512 := by
      simp only [length_append, length_zeros, hl, hfl, hbl, Nat.add_assoc]
    have htotal : (block ++ payload ++ zeros (padding payload.length) ++ fileBlock ++ content ++
        zeros (padding content.length)).length =
          512 + buf.length + 512 + (content.length + padding content.length) := by
      rw [length_append, length_append, hheader, length_zeros, Nat.add_assoc]
    rw [hheader, htotal]
    by_cases hs : (lookupRecord records sizeKeyword).isSome = true
    · rw [if_pos hs, dataBlocks_regular, ok_bind]
      simp only [Nat.add_assoc]
      rfl
    · rw [if_neg hs, hsize.resolve_left hs]
      simp only [Nat.add_assoc]
      rfl
  nonempty he := by
    have hl := h.length
    simp only [append_assoc, append_eq_nil_iff] at he
    rw [he.1] at hl
    cases hl

/-! ## Archives -/

/-- A member as written. -/
structure Member where
  bytes : Bytes
  headerLength : Nat
  name : Bytes
  size : Nat
  reads : Reads bytes headerLength name size

/-- What is reported about consecutive members, the first at `offset`. -/
def infosFrom : Nat → List Member → List TarInfo
  | _, [] => []
  | offset, m :: members =>
    ⟨m.name, m.size, 48, offset, offset + m.headerLength⟩ ::
      infosFrom (offset + m.bytes.length) members

theorem next_member (m : Member) (before rest : Bytes) :
    next (before ++ (m.bytes ++ rest)) before.length =
      .ok (some (⟨m.name, m.size, 48, before.length, before.length + m.headerLength⟩,
        before.length + m.bytes.length)) := by
  have hpos := length_pos_iff.2 m.reads.nonempty
  rw [next, if_neg, m.reads.reads]
  · rw [length_append, length_append]
    omega
  · rw [length_append]
    omega

theorem next_end (before : Bytes) : next (before ++ zeros 1024) before.length = .ok none := by
  have hslice : slice (before ++ zeros 1024) before.length 512 = zeros 512 := by
    have hs := slice_append_middle before (zeros 512) (zeros 512)
    rwa [length_zeros, zeros, replicate_append_replicate] at hs
  rw [next, if_neg, fromtarfile, hslice, show frombuf (zeros 512) = .error .eofHeader by
    decide +kernel]
  · rfl
  · rw [length_append]
    omega

theorem loadFrom_flatMap (members : List Member) {fuel : Nat} (hf : members.length < fuel)
    (before : Bytes) :
    loadFrom (before ++ (members.flatMap Member.bytes ++ zeros 1024)) fuel before.length =
      .ok (infosFrom before.length members) := by
  induction members generalizing fuel before with
  | nil =>
    obtain ⟨fuel, rfl⟩ : ∃ k, fuel = k + 1 := ⟨fuel - 1, by omega⟩
    rw [flatMap_nil, nil_append, loadFrom, next_end]
    rfl
  | cons m members ih =>
    obtain ⟨fuel, rfl⟩ : ∃ k, fuel = k + 1 := ⟨fuel - 1, by omega⟩
    have hfuel : members.length < fuel := by
      rw [length_cons] at hf
      omega
    have hrest := ih hfuel (before ++ m.bytes)
    rw [append_assoc, length_append] at hrest
    rw [flatMap_cons, append_assoc, loadFrom, next_member, ok_bind]
    dsimp only
    rw [hrest]
    rfl

/-- An archive of members is read member by member. -/
theorem getmembers_flatMap (members : List Member) :
    getmembers (members.flatMap Member.bytes ++ zeros 1024) = .ok (infosFrom 0 members) := by
  have hl : members.length ≤ (members.flatMap Member.bytes).length := by
    induction members with
    | nil => exact Nat.zero_le _
    | cons m members ih =>
      have hm := length_pos_iff.2 m.reads.nonempty
      rw [flatMap_cons, length_append, length_cons]
      omega
  exact loadFrom_flatMap members (by rw [length_append]; omega) []

end Riverhog.Core.Tarfile
