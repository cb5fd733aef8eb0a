import Mathlib.Algebra.Order.BigOperators.Group.List
import Riverhog.Pack.TarFits
import Riverhog.Pack.Units

/-!
# Planning a pack returns

`plan_pack_volume` checks much of what it computes itself: that the padding of a unit
ends on a chunk boundary, that numbers fit their fields, that the units of its own plan
pass the checks of the upload protocol. None of these checks fails for files that the
planner may be given (`Packable`): paths of at most a mebibyte, sizes of at most 64 bits.
-/

namespace Riverhog.Pack

open Core Protocol List

/-- Files that can be packed into one volume. -/
structure Packable (nfc : Text → Text) (maxMemberBytes : Int) (files : List ArchiveFile) :
    Prop where
  nonempty : files ≠ []
  count : files.length ≤ archivePackFilesMax
  canonical : ∀ f ∈ files, normalizeRelpath nfc f.path = .ok f.path
  unreserved : ∀ f ∈ files, reservedArchivePrefix.isPrefixOf f.path = false
  distinct : (files.map ArchiveFile.path).Nodup
  small : ∀ f ∈ files, (f.bytes : Int) < maxMemberBytes
  identity : ∀ f ∈ files, isSha256 f.sha256 = true
  pathBytes : ∀ f ∈ files, (encodeUtf8 f.path).length ≤ 2 ^ 20
  bytes : ∀ f ∈ files, f.bytes < 2 ^ 64

namespace Packable

variable {nfc : Text → Text} {maxMemberBytes : Int} {files : List ArchiveFile}

theorem perm {files' : List ArchiveFile} (h : Packable nfc maxMemberBytes files)
    (hp : files'.Perm files) : Packable nfc maxMemberBytes files' where
  nonempty := fun he => h.nonempty (by rwa [he, nil_perm] at hp)
  count := hp.length_eq ▸ h.count
  canonical := fun f hf => h.canonical f (hp.mem_iff.1 hf)
  unreserved := fun f hf => h.unreserved f (hp.mem_iff.1 hf)
  distinct := (hp.map _).nodup_iff.2 h.distinct
  small := fun f hf => h.small f (hp.mem_iff.1 hf)
  identity := fun f hf => h.identity f (hp.mem_iff.1 hf)
  pathBytes := fun f hf => h.pathBytes f (hp.mem_iff.1 hf)
  bytes := fun f hf => h.bytes f (hp.mem_iff.1 hf)

end Packable

/-! ## Normalisation -/

variable {maxMemberBytes : Int} {files : List ArchiveFile} {sequence : Nat} {nfc : Text → Text}

variable {units : List PackUploadUnitPlan} {seen : List Text} {index unit : Nat} {s : PlanState}

/-- Where the paths are distinct and none was seen before, the others are new after the first. -/
theorem notMem_seen {f : ArchiveFile} (hd : ((f :: files).map ArchiveFile.path).Nodup)
    (hn : ∀ g ∈ files, g.path ∉ seen) : ∀ g ∈ files, g.path ∉ f.path :: seen := by
  intro g hg hmem
  rcases mem_cons.1 hmem with he | hmem
  · exact (nodup_cons.1 hd).1 (he ▸ mem_map_of_mem hg)
  · exact hn g hg hmem

/-- Canonical files pass the loop unchanged. -/
theorem normalizeEach_ok (hc : ∀ f ∈ files, normalizeRelpath nfc f.path = .ok f.path)
    (hr : ∀ f ∈ files, reservedArchivePrefix.isPrefixOf f.path = false)
    (hd : (files.map ArchiveFile.path).Nodup) (hn : ∀ f ∈ files, f.path ∉ seen)
    (hb : ∀ f ∈ files, (f.bytes : Int) < maxMemberBytes)
    (hi : ∀ f ∈ files, isSha256 f.sha256 = true) :
    normalizeEach nfc maxMemberBytes files seen = .ok files := by
  induction files generalizing seen with
  | nil => rfl
  | cons f files ih =>
    rw [forall_mem_cons] at hc hr hn hb hi
    simp only [normalizeEach, bind_eq_ok, require_eq_ok]
    exact ⟨f.path, hc.1, (), by simp [hr.1], (), by simpa using hn.1, (), by simpa using hb.1, (),
      hi.1, files, ih hc.2 hr.2 hd.of_cons (notMem_seen hd hn.2) hb.2 hi.2, rfl⟩

theorem Packable.normalizedFiles_eq (h : Packable nfc maxMemberBytes files) :
    normalizedFiles nfc files maxMemberBytes = .ok (sortedBy ArchiveFile.path files) := by
  have hpos : 0 < maxMemberBytes := by
    obtain ⟨f, hf⟩ := exists_mem_of_ne_nil files h.nonempty
    have := h.small f hf
    omega
  have heach : normalizeEach nfc maxMemberBytes files [] = .ok files :=
    normalizeEach_ok h.canonical h.unreserved h.distinct (by simp) h.small h.identity
  simp only [normalizedFiles, bind_eq_ok, require_eq_ok]
  exact ⟨(), by simpa using hpos, files, heach, (), by simp [h.nonempty], rfl⟩

/-! ## The planning loop -/

/-- The name of a pack volume. -/
theorem isPackVolumeId_zeroPadded (hs : sequence < 2 ^ 256) :
    isPackVolumeId ("pack-" ++ zeroPadded 16 64 sequence) = true := by
  have hhex : ∀ d < 16, isHexDigit (Nat.digitChar d) = true := by decide
  have hlength : (zeroPadded 16 64 sequence).length = 64 :=
    length_zeroPadded (by decide) (by decide) (by omega)
  have hall : (zeroPadded 16 64 sequence).all isHexDigit = true := by
    rw [all_eq_true]
    intro c hc
    obtain ⟨d, hd, rfl⟩ := mem_zeroPadded (by decide) hc
    exact hhex d hd
  have hdrop : ("pack-" ++ zeroPadded 16 64 sequence).drop 5 = zeroPadded 16 64 sequence :=
    drop_left' rfl
  rw [isPackVolumeId, hdrop, isSha256, hlength, hall]
  simp

/-- The path of a padding member is short. -/
theorem length_paddingPath (hs : sequence < 2 ^ 256) (hu : unit < 10 ^ 6) :
    (encodeUtf8 (paddingPath ("pack-" ++ zeroPadded 16 64 sequence) unit)).length ≤ 100 := by
  have hdigit : ∀ d < 16, (Nat.digitChar d).toNat < 128 := by decide
  have hascii : ∀ base width n, 1 < base → base ≤ 16 →
      ∀ c ∈ zeroPadded base width n, c.toNat < 128 := by
    intro base width n hb hb' c hc
    obtain ⟨d, hd, rfl⟩ := mem_zeroPadded hb hc
    exact hdigit d (by omega)
  have hletters : ((packPaddingPrefix ++ "pack-" ++ ['-']).all fun c =>
      decide (c.toNat < 128)) = true := by decide
  have hfixed : ∀ c ∈ packPaddingPrefix ++ "pack-" ++ ['-'], c.toNat < 128 :=
    fun c hc => of_decide_eq_true (all_eq_true.1 hletters c hc)
  have hall : ∀ c ∈ paddingPath ("pack-" ++ zeroPadded 16 64 sequence) unit, c.toNat < 128 := by
    intro c hc
    simp only [paddingPath, mem_append, mem_cons] at hc hfixed
    rcases hc with (hc | hc | hc) | hc | hc
    · exact hfixed c (.inl (.inl hc))
    · exact hfixed c (.inl (.inr hc))
    · exact hascii 16 64 sequence (by decide) (by decide) c hc
    · exact hfixed c (.inr (.inl hc))
    · exact hascii 10 6 unit (by decide) (by decide) c hc
  have hstem : (packPaddingPrefix ++ "pack-").length = 23 := by decide
  rw [encodeUtf8_ascii hall, length_map, paddingPath, ← append_assoc, length_append, length_append,
    hstem, length_cons, length_zeroPadded (by decide) (by decide) (by omega : sequence < 16 ^ 64),
    length_zeroPadded (by decide) (by decide) hu]
  decide

/-- The end of a block can be padded to the end of a chunk. -/
theorem alignmentPadding_ok {cursor : Nat} (hs : sequence < 2 ^ 256) (hu : unit < 10 ^ 6)
    (hc : cursor % tarBlockSize = 0) :
    ∃ padding stop, alignmentPadding ("pack-" ++ zeroPadded 16 64 sequence) unit cursor =
      .ok (padding, stop) ∧ stop % tarBlockSize = 0 ∧ stop ≤ cursor + chunkSize := by
  rw [alignmentPadding]
  by_cases hr : cursor % chunkSize = 0
  · exact ⟨none, cursor, if_pos hr, hc, Nat.le_add_right _ _⟩
  · rw [if_neg hr]
    have hlt : cursor % chunkSize < chunkSize := Nat.mod_lt _ (by decide)
    rw [tarBlockSize] at hc
    rw [chunkSize] at hr hlt
    have hsize : 65536 - cursor % 65536 - 512 ≤ tarUstarSizeMax := by
      rw [tarUstarSizeMax]
      omega
    obtain ⟨header, hheader, hlength⟩ := tarHeader_short (length_paddingPath hs hu) hsize
    rw [tarBlockSize] at hlength
    have hpad : tarPadding (65536 - cursor % 65536 - 512) = 0 := by
      rw [tarPadding, tarBlockSize]
      omega
    simp only [bind_eq_ok, require_eq_ok, chunkSize, tarBlockSize]
    refine ⟨_, _, ⟨(), ?_, header, hheader, (), ?_, rfl⟩, ?_, ?_⟩
    · have hroom : ¬ 65536 - cursor % 65536 < 512 := by omega
      have hwhole : (65536 - cursor % 65536) % 512 = 0 := by omega
      simp [hroom, hwhole]
    · rw [hlength, hpad, beq_iff_eq]
      omega
    · rw [hlength, hpad]
      omega
    · rw [hlength, hpad]
      omega

/-- How far the planning loop has come: the cursor is at the end of a block, and no number in the
state is large. -/
structure PlanState.Bounded (s : PlanState) : Prop where
  block : s.cursor % tarBlockSize = 0
  cursor : s.cursor ≤ s.members.length * 2 ^ 66
  unitIndex : s.unitIndex ≤ s.members.length
  member : ∀ m ∈ s.members, m.unit ≤ s.unitIndex ∧ m.headerOffset ≤ s.cursor ∧
    m.dataOffset ≤ s.cursor

theorem PlanState.Bounded.place (h : s.Bounded) {f : ArchiveFile} {header : Bytes}
    (hh : tarHeader f.path f.bytes = .ok header) :
    (s.place f header.length).cursor % tarBlockSize = 0 ∧
      (s.place f header.length).cursor = s.cursor + header.length + f.bytes + tarPadding f.bytes ∧
      ∀ m ∈ (s.place f header.length).members, m.unit ≤ s.unitIndex ∧
        m.headerOffset ≤ (s.place f header.length).cursor ∧
        m.dataOffset ≤ (s.place f header.length).cursor := by
  have hmod := (tarHeader_length hh).1
  have hblock := h.block
  refine ⟨?_, rfl, ?_⟩
  · simp only [PlanState.place, tarPadding, tarBlockSize] at hmod hblock ⊢
    omega
  · intro m hm
    simp only [PlanState.place] at hm ⊢
    rcases mem_append.1 hm with hm | hm
    · obtain ⟨hunit, hheader, hdata⟩ := h.member m hm
      exact ⟨hunit, by omega, by omega⟩
    · rw [mem_singleton.1 hm]
      exact ⟨le_rfl, by dsimp only; omega, by dsimp only; omega⟩

/-- The loop ends, and keeps its numbers small. -/
theorem planLoop_ok {sequence part : Nat} (hs : sequence < 2 ^ 256) {files : List ArchiveFile}
    {s : PlanState} (hb : s.Bounded) (hcount : s.members.length + files.length < 10 ^ 6)
    (hfiles : ∀ f ∈ files, (encodeUtf8 f.path).length ≤ 2 ^ 20 ∧ f.bytes < 2 ^ 64) :
    ∃ t, planLoop ("pack-" ++ zeroPadded 16 64 sequence) part files s = .ok t ∧ t.Bounded := by
  induction files generalizing s with
  | nil => exact ⟨s, rfl, hb⟩
  | cons f files ih =>
    rw [forall_mem_cons] at hfiles
    obtain ⟨⟨hpath, hbytes⟩, hrest⟩ := hfiles
    have hsize : f.bytes < 10 ^ 10 ^ 6 :=
      hbytes.trans (lt_of_lt_of_le (by decide : 2 ^ 64 < 10 ^ 20)
        (Nat.pow_le_pow_right (by decide) (by decide)))
    obtain ⟨header, hheader, hlength⟩ := tarHeader_ok hpath hsize
    obtain ⟨hblock, hcursor, hmember⟩ := hb.place hheader
    have hmembers : (s.place f header.length).members.length = s.members.length + 1 := by
      simp [PlanState.place]
    have hunit := hb.unitIndex
    have hle := hb.cursor
    have hpad : tarPadding f.bytes < 512 := by
      rw [tarPadding, tarBlockSize]
      omega
    rw [length_cons] at hcount
    rw [planLoop, hheader, ok_bind]
    dsimp only
    split_ifs with hcut
    · obtain ⟨padding, stop, hp, hstop, hstople⟩ :=
        alignmentPadding_ok hs (show (s.place f header.length).unitIndex < 10 ^ 6 by
          simp only [PlanState.place]
          omega) hblock
      rw [chunkSize] at hstople
      rw [hp, ok_bind]
      refine ih ⟨hstop, ?_, ?_, ?_⟩ ?_ hrest
      · simp only [PlanState.cut, hmembers]
        omega
      · simp only [PlanState.cut, hmembers]
        simp only [PlanState.place]
        omega
      · intro m hm
        obtain ⟨hu, hh, hd⟩ := hmember m hm
        have hstopge : (s.place f header.length).cursor ≤ stop := by
          obtain hlaid := alignmentPadding_laid hp
          cases hlaid with
          | none => exact le_rfl
          | some _ _ hs => omega
        exact ⟨Nat.le_succ_of_le hu, hh.trans hstopge, hd.trans hstopge⟩
      · simp only [PlanState.cut, hmembers]
        omega
    · refine ih ⟨hblock, ?_, ?_, hmember⟩ ?_ hrest
      · rw [hmembers]
        omega
      · rw [hmembers]
        exact Nat.le_succ_of_le hunit
      · rw [hmembers]
        omega

/-! ## The index -/

/-- What one member adds to the index. -/
theorem bulk_member_le {m : PackMemberPlan} (hp : (encodeUtf8 m.path).length ≤ 2 ^ 20)
    (hb : m.bytes < 2 ^ 64) (hi : isSha256 m.sha256 = true) (hu : m.unit < 10 ^ 6)
    (hh : m.headerOffset < 10 ^ 30) (hd : m.dataOffset < 10 ^ 30) : m.toJson.bulk ≤ 2 ^ 24 := by
  have hpath : m.path.length ≤ 2 ^ 20 := (length_le_encodeUtf8 m.path).trans hp
  have hsha : m.sha256.length = 64 := by
    rw [isSha256, Bool.and_eq_true, beq_iff_eq] at hi
    exact hi.1
  have hbytes : (decimal m.bytes).length ≤ 20 :=
    (length_decimal_le_iff (by decide)).2 (hb.trans (by decide))
  have hunit : (decimal m.unit).length ≤ 6 := (length_decimal_le_iff (by decide)).2 hu
  have hheader : (decimal m.headerOffset).length ≤ 30 := (length_decimal_le_iff (by decide)).2 hh
  have hdata : (decimal m.dataOffset).length ≤ 30 := (length_decimal_le_iff (by decide)).2 hd
  have hbulk : m.toJson.bulk = 12 * m.path.length + 12 * 64 + (decimal m.bytes).length +
      (decimal m.unit).length + (decimal m.headerOffset).length +
      (decimal m.dataOffset).length + 550 := by
    simp only [PackMemberPlan.toJson, Json.bulk, Json.bulkMembers, Json.nat, Int.natAbs_natCast,
      String.length_toList, hsha, show "path".length = 4 from rfl,
      show "bytes".length = 5 from rfl, show "sha256".length = 6 from rfl,
      show "unit".length = 4 from rfl, show "header_offset".length = 13 from rfl,
      show "data_offset".length = 11 from rfl]
    omega
  omega

/-- The index of a pack is not longer than its header can say. -/
theorem length_packIndexBytes_lt (hs : sequence < 2 ^ 256) (hb : s.Bounded)
    (hcount : s.members.length ≤ archivePackFilesMax)
    (hm : ∀ m ∈ s.members, (encodeUtf8 m.path).length ≤ 2 ^ 20 ∧ m.bytes < 2 ^ 64 ∧
      isSha256 m.sha256 = true) :
    (packIndexBytes ("pack-" ++ zeroPadded 16 64 sequence) sequence s.members).length <
      10 ^ 10 ^ 6 := by
  rw [archivePackFilesMax] at hcount
  have hcursor : s.cursor < 10 ^ 30 := by
    have hle := hb.cursor
    omega
  have hmembers : ∀ v ∈ s.members.map PackMemberPlan.toJson, v.bulk + 1 ≤ 2 ^ 25 := by
    rw [forall_mem_map]
    intro m hmem
    obtain ⟨hpath, hbytes, hsha⟩ := hm m hmem
    obtain ⟨hunit, hheader, hdata⟩ := hb.member m hmem
    have hindex := hb.unitIndex
    have hbulk := bulk_member_le hpath hbytes hsha (by omega) (by omega) (by omega)
    omega
  have hitems : Json.bulkItems (s.members.map PackMemberPlan.toJson) ≤ 50000 * 2 ^ 25 := by
    rw [Json.bulkItems_eq_sum]
    have hsum := sum_le_card_nsmul ((s.members.map PackMemberPlan.toJson).map
      fun v => v.bulk + 1) (2 ^ 25) (by rwa [forall_mem_map])
    rw [length_map, length_map, Nat.nsmul_eq_mul] at hsum
    exact hsum.trans (Nat.mul_le_mul_right _ hcount)
  have hbytes : (decimal (s.members.map PackMemberPlan.bytes).sum).length ≤ 30 := by
    rw [length_decimal_le_iff (by decide)]
    have hsum := sum_le_card_nsmul (s.members.map PackMemberPlan.bytes) (2 ^ 64)
      (by rw [forall_mem_map]; exact fun m hmem => (hm m hmem).2.1.le)
    rw [length_map, Nat.nsmul_eq_mul] at hsum
    omega
  have hfiles : (decimal s.members.length).length ≤ 6 :=
    (length_decimal_le_iff (by decide)).2 (by omega)
  have hsequence : (decimal sequence).length ≤ 80 :=
    (length_decimal_le_iff (by decide)).2 (hs.trans (by decide))
  have hid : ("pack-" ++ zeroPadded 16 64 sequence).length = 69 := by
    rw [length_append, length_zeroPadded (by decide) (by decide)
      (by omega : sequence < 16 ^ 64)]
    rfl
  have hbulk : (packIndex ("pack-" ++ zeroPadded 16 64 sequence) sequence s.members).bulk ≤
      2 ^ 41 := by
    simp only [packIndex, Json.bulk, Json.bulkMembers, Json.nat, Int.natAbs_natCast, hid,
      length_sha256Hex]
    simp only [String.length_toList, show "schema".length = 6 from rfl,
      show "riverhog-pack-index/v1".length = 22 from rfl, show "volume".length = 6 from rfl,
      show "id".length = 2 from rfl, show "sequence".length = 8 from rfl,
      show "tree".length = 4 from rfl, show "files".length = 5 from rfl,
      show "bytes".length = 5 from rfl, show "sha256".length = 6 from rfl]
    omega
  have hlength : (packIndexBytes ("pack-" ++ zeroPadded 16 64 sequence) sequence
      s.members).length ≤ 2 ^ 43 := by
    have hutf8 := length_encodeUtf8_le (Json.dumps false
      (packIndex ("pack-" ++ zeroPadded 16 64 sequence) sequence s.members))
    have hdumps := Json.length_dumps_le false
      (packIndex ("pack-" ++ zeroPadded 16 64 sequence) sequence s.members)
    rw [packIndexBytes, canonicalJsonBytes]
    omega
  calc _ ≤ 2 ^ 43 := hlength
    _ < 10 ^ 20 := by decide
    _ ≤ 10 ^ 10 ^ 6 := Nat.pow_le_pow_right (by decide) (by decide)

/-! ## The identity of the upload plan -/

/-- Canonical sources pass the checks of the upload protocol. -/
theorem sourceRows_ok {sources : List ArchiveFile}
    (hc : ∀ f ∈ sources, normalizeRelpath nfc f.path = .ok f.path)
    (hr : ∀ f ∈ sources, reservedArchivePrefix.isPrefixOf f.path = false)
    (hd : (sources.map ArchiveFile.path).Nodup) (hn : ∀ f ∈ sources, f.path ∉ seen)
    (hi : ∀ f ∈ sources, isSha256 f.sha256 = true) : sourceRows nfc sources seen = .ok sources := by
  induction sources generalizing seen with
  | nil => rfl
  | cons f sources ih =>
    rw [forall_mem_cons] at hc hr hn hi
    simp only [sourceRows, bind_eq_ok, require_eq_ok]
    exact ⟨f.path, hc.1, (), by simp [hr.1], (), by simpa using hn.1, (), hi.1, sources,
      ih hc.2 hr.2 hd.of_cons (notMem_seen hd hn.2) hi.2, rfl⟩

/-- Units in order, with sources that pass, pass. -/
theorem normalizedUnitRows_ok (hu : units.map PackUploadUnitPlan.unit = range' index units.length)
    (hs : ∀ u ∈ units, sourceRows nfc u.sources [] = .ok u.sources) :
    normalizedUnitRows nfc (units.map PackUploadUnitPlan.row) index =
      .ok (units.map PackUploadUnitPlan.row) := by
  induction units generalizing index with
  | nil => rfl
  | cons u units ih =>
    rw [forall_mem_cons] at hs
    rw [map_cons, length_cons, range'_succ, cons.injEq] at hu
    have hrow : normalizedUnitRow nfc u.row index = .ok u.row := by
      simp only [normalizedUnitRow, bind_eq_ok, require_eq_ok]
      exact ⟨(), by simpa [PackUploadUnitPlan.row] using hu.1, u.sources, hs.1, (),
        by simp [PackUploadUnitPlan.row, PackUploadUnitPlan.payloadBytes], rfl⟩
    rw [map_cons, normalizedUnitRows, hrow, ok_bind, ih hu.2 hs.2]
    rfl

theorem UnitsLaid.map_unit {volumeId : Text} {start last stop : Nat} {members : List PackMemberPlan}
    (h : UnitsLaid volumeId index start units members last stop) :
    units.map PackUploadUnitPlan.unit = range' index units.length := by
  induction h with
  | nil => rfl
  | cons _ _ _ _ ih => rw [map_cons, ih, length_cons, range'_succ]

/-- Planning a pack returns. -/
theorem Packable.planPackVolume_ok {partPlaintextBytes : Int}
    (h : Packable nfc maxMemberBytes files) (hs : sequence < 2 ^ 256) (hp : 0 < partPlaintextBytes)
    (ha : partPlaintextBytes % chunkSize = 0) :
    ∃ plan, planPackVolume nfc files sequence maxMemberBytes partPlaintextBytes = .ok plan := by
  have hsorted := h.perm (sortedBy_perm ArchiveFile.path files)
  set normalized := sortedBy ArchiveFile.path files with hnormalized
  have hcount := hsorted.count
  rw [archivePackFilesMax] at hcount
  have hinitial : PlanState.initial.Bounded :=
    ⟨rfl, Nat.zero_le _, Nat.zero_le _, by simp [PlanState.initial]⟩
  have hroom : PlanState.initial.members.length + normalized.length < 10 ^ 6 := by
    simp only [PlanState.initial, length_nil]
    omega
  obtain ⟨s, hloop, hbounded⟩ := @planLoop_ok sequence partPlaintextBytes.toNat hs normalized
    PlanState.initial hinitial hroom fun f hf => ⟨hsorted.pathBytes f hf, hsorted.bytes f hf⟩
  have hinv := planLoop_laid PlanState.Inv.initial hloop
  rw [nil_append] at hinv
  obtain ⟨done, current, hm, hu, hl⟩ := hinv.laid
  have hfiles : s.members.map PackMemberPlan.file = normalized := by
    rw [← hinv.placed_eq, hm, map_append, hu.map_file, hl.map_file]
  have hmem : ∀ m ∈ s.members, m.file ∈ normalized :=
    fun m hmem => hfiles ▸ mem_map_of_mem hmem
  have hlength : s.members.length ≤ archivePackFilesMax := by
    have heq := congrArg length hfiles
    rw [length_map] at heq
    exact heq ▸ hsorted.count
  -- the index member
  have hpath : (encodeUtf8 packIndexPath).length ≤ 2 ^ 20 := by decide
  obtain ⟨indexHeader, hindex, -⟩ := tarHeader_ok hpath
    (length_packIndexBytes_lt hs hbounded hlength fun m hm => ⟨hsorted.pathBytes _ (hmem m hm),
      hsorted.bytes _ (hmem m hm), hsorted.identity _ (hmem m hm)⟩)
  -- the units of the plan, the last one included
  have hsources : ∀ last : PackUploadUnitPlan, last.sources = s.unitSources →
      ∀ u ∈ s.units ++ [last], sourceRows nfc u.sources [] = .ok u.sources := by
    intro last hlast u hu
    have hsub : u.sources.Sublist normalized := by
      have hflat : (s.units ++ [last]).flatMap PackUploadUnitPlan.sources = normalized := by
        rw [flatMap_append, flatMap_singleton, hlast, hinv.placed_eq]
      rw [← hflat, flatMap_def]
      exact sublist_flatten_of_mem (mem_map_of_mem hu)
    exact sourceRows_ok (fun f hf => hsorted.canonical f (hsub.subset hf))
      (fun f hf => hsorted.unreserved f (hsub.subset hf))
      (hsorted.distinct.sublist (hsub.map _)) (by simp)
      fun f hf => hsorted.identity f (hsub.subset hf)
  have hunits : ∀ last : PackUploadUnitPlan, last.unit = s.unitIndex →
      (s.units ++ [last]).map PackUploadUnitPlan.unit = range' 0 (s.units ++ [last]).length := by
    intro last hlast
    have hindexed := hu.last_eq
    rw [map_append, hu.map_unit, length_append, length_singleton, map_singleton,
      hlast, range'_1_concat, hindexed]
  have hsequence : ((sequence : Int)).toNat = sequence := Int.toNat_natCast sequence
  simp only [planPackVolume, bind_eq_ok, require_eq_ok, packUploadPlanSha256, hsequence]
  refine ⟨_, normalized, h.normalizedFiles_eq, (), by simpa using hsorted.count, (), by simp, (),
    by simpa using Int.add_one_le_of_lt hp, (), by simpa using ha, (), ?_, s, hloop, indexHeader, hindex,
    _, ⟨(), isPackVolumeId_zeroPadded hs, (), ?_, (), by simp, _,
      normalizedUnitRows_ok (hunits _ rfl) (hsources _ rfl), rfl⟩, rfl⟩
  · rw [decide_eq_true_eq]
    exact_mod_cast hs
  · rw [decide_eq_true_eq, tarBlockSize]
    omega

end Riverhog.Pack
