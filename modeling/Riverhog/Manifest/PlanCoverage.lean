import Riverhog.Core.Tiling
import Riverhog.Manifest.TreeIdentity
import Riverhog.Upload.Planner
import Mathlib.Data.Prod.Lex

/-!
# Validating an archive plan

`validate_collection_archive_plan` of `riverhog_core.archive_manifest`. The placements
of all volumes are gathered by file; for each file they are sorted and walked from
offset zero to its size. `validateCollectionArchivePlan_eq_ok_iff` says exactly which
plans pass. The walk lets empty placements through, so a file without bytes may be
placed any number of times.
-/

namespace Riverhog.Manifest

open Core Core.Tiling Protocol Pack Upload Except
open List hiding ranges Chain

/-! ## The volumes of a plan -/

/-- What is read of a `PackVolumePlan`. -/
structure PackPlacement where
  volumeId : Text
  sequence : Int
  members : List FileEntry
  deriving DecidableEq

/-- What is read of a `RawVolumePlan` or a `SealedRawVolume`. -/
structure RawPlacement where
  volumeId : Text
  sequence : Int
  sourcePath : Text
  fileOffset : Int
  plaintextBytes : Int
  fileBytes : Int
  fileSha256 : Text
  deriving DecidableEq

/-- A pack plan of the planner. -/
def PackPlacement.ofPlan (p : PackVolumePlan) : PackPlacement :=
  ⟨p.volumeId, p.sequence, p.members.map fun m => ⟨m.path, m.bytes, m.sha256⟩⟩

/-- A raw plan of the planner. -/
def RawPlacement.ofPlan (p : RawVolumePlan) : RawPlacement :=
  ⟨p.volumeId, p.sequence, p.sourcePath, p.fileOffset, p.plaintextBytes, p.fileBytes, p.fileSha256⟩

/-- An entry of `coverage`: the file, the range and the volume that holds it. -/
structure Placement where
  path : Text
  range : Range
  volumeId : Text

/-- The sequence numbers of all volumes of a plan. -/
def sequences (packs : List PackPlacement) (raws : List RawPlacement) : List Int :=
  packs.map PackPlacement.sequence ++ raws.map RawPlacement.sequence

/-- The names of all volumes of a plan. -/
def volumeIds (packs : List PackPlacement) (raws : List RawPlacement) : List Text :=
  packs.map PackPlacement.volumeId ++ raws.map RawPlacement.volumeId

/-! ## The validation -/

/-- `expected_by_path.get`. -/
def expectedFile (files : List ArchiveFile) (path : Text) : Option ArchiveFile :=
  files.find? fun f => f.path == path

/-- The file has the size and digest that a volume states for it. -/
def sameIdentity (f : ArchiveFile) (bytes : Int) (sha256 : Text) : Bool :=
  !((f.bytes : Int) != bytes || f.sha256 != sha256)

/-- The body of the loop over the members of a pack. -/
def placeMember (files : List ArchiveFile) (volumeId : Text) (m : FileEntry) : Py Placement := do
  let known := (expectedFile files m.path).any fun f => sameIdentity f m.bytes m.sha256
  require known (.valueError
    ("pack plan does not match collection file identity: " ++ String.ofList m.path))
  return ⟨m.path, ⟨0, m.bytes⟩, volumeId⟩

/-- The body of the loop over the raw volumes. -/
def placeRaw (nfc : Text → Text) (files : List ArchiveFile) (raw : RawPlacement) :
    Py Placement := do
  let sourcePath ← normalizeRelpath nfc raw.sourcePath
  match expectedFile files sourcePath with
  | none =>
    .error (.valueError
      ("raw volume references an unknown collection path: " ++ String.ofList sourcePath))
  | some expected =>
    require (!(raw.fileOffset < 0 || raw.plaintextBytes < 0))
      (.valueError "raw volume placement is invalid")
    require (sameIdentity expected raw.fileBytes raw.fileSha256) (.valueError
      ("raw volume file identity mismatch: " ++ String.ofList sourcePath))
    require (!(raw.fileOffset + raw.plaintextBytes > expected.bytes)) (.valueError
      ("raw volume exceeds its collection file: " ++ String.ofList sourcePath))
    return ⟨sourcePath, ⟨raw.fileOffset, raw.plaintextBytes⟩, raw.volumeId⟩

/-- `sorted(coverage[path])`: tuples are compared from left to right. -/
def sortedPlacements (coverage : List Placement) (path : Text) : List Placement :=
  sortedBy (fun p => toLex (p.range.offset, toLex (p.range.length, p.volumeId)))
    (coverage.filter fun p => p.path == path)

/-- The inner loop of `_validate_file_coverage`. -/
def walkRanges (path : Text) : Int → List Range → Py Int
  | expectedOffset, [] => .ok expectedOffset
  | expectedOffset, r :: rest => do
    require (!(r.offset != expectedOffset || r.length < 0)) (.valueError
      ("collection archive file placements are not contiguous: " ++ String.ofList path))
    walkRanges path (expectedOffset + r.length) rest

/-- `_validate_file_coverage`, for one file. -/
def validateFileCoverage (coverage : List Placement) (current : ArchiveFile) : Py Unit := do
  let ranges := (sortedPlacements coverage current.path).map Placement.range
  require (!ranges.isEmpty) (.valueError
    ("collection archive file has no volume placement: " ++ String.ofList current.path))
  let stop ← walkRanges current.path 0 ranges
  require (stop == current.bytes) (.valueError
    ("collection archive file placements do not cover it: " ++ String.ofList current.path))

/-- `validate_collection_archive_plan`. -/
def validateCollectionArchivePlan (nfc : Text → Text) (files : List FileEntry)
    (packs : List PackPlacement) (raws : List RawPlacement) : Py (List ArchiveFile) := do
  let normalized ← normalizedFiles nfc files
  let ordered := sortedBy id (sequences packs raws)
  require (ordered == (List.range ordered.length).map Int.ofNat)
    (.valueError "archive volume plan sequence must be canonical and contiguous")
  require (decide (volumeIds packs raws).Nodup)
    (.valueError "archive volume plan ids must be unique")
  let packed ← packs.mapM fun pack => pack.members.mapM (placeMember normalized pack.volumeId)
  let placed ← raws.mapM (placeRaw nfc normalized)
  normalized.forM (validateFileCoverage (packed.flatten ++ placed))
  return normalized

/-! ## Exactly once -/

/-- The members of all packs that name a file. -/
def membersOf (packs : List PackPlacement) (f : ArchiveFile) : List FileEntry :=
  (packs.flatMap PackPlacement.members).filter fun m => m.path == f.path

/-- The raw volumes whose source is a file. -/
def rawsOf (nfc : Text → Text) (raws : List RawPlacement) (f : ArchiveFile) : List RawPlacement :=
  raws.filter fun raw => normalizeRelpath nfc raw.sourcePath == .ok f.path

/-- The range of its file that a raw volume holds. -/
def RawPlacement.range (raw : RawPlacement) : Range := ⟨raw.fileOffset, raw.plaintextBytes⟩

/-- The sequence numbers are `0, 1, …` in some order. -/
def Contiguous (packs : List PackPlacement) (raws : List RawPlacement) : Prop :=
  (sequences packs raws).Perm ((List.range (sequences packs raws).length).map Int.ofNat)

/-- Every placement is of a file of the tree, with its size and digest, and lies inside it. -/
structure Known (nfc : Text → Text) (tree : List ArchiveFile) (packs : List PackPlacement)
    (raws : List RawPlacement) : Prop where
  member : ∀ pack ∈ packs, ∀ m ∈ pack.members, ∃ f ∈ tree,
    f.path = m.path ∧ (f.bytes : Int) = m.bytes ∧ f.sha256 = m.sha256
  raw : ∀ raw ∈ raws, ∃ f ∈ tree, normalizeRelpath nfc raw.sourcePath = .ok f.path ∧
    (f.bytes : Int) = raw.fileBytes ∧ f.sha256 = raw.fileSha256 ∧ 0 ≤ raw.fileOffset ∧
    0 ≤ raw.plaintextBytes ∧ raw.fileOffset + raw.plaintextBytes ≤ f.bytes

section

variable (nfc : Text → Text)

/-- A file is placed once: as one member of one pack, or as raw volumes that tile it. -/
def PlacedOnce (packs : List PackPlacement) (raws : List RawPlacement) (f : ArchiveFile) : Prop :=
  (membersOf packs f).length = 1 ∧ rawsOf nfc raws f = [] ∨
    membersOf packs f = [] ∧ TilesOnce ((rawsOf nfc raws f).map RawPlacement.range) f.bytes

/-- The purpose of the validation: contiguous volumes that place every file of the collection tree
exactly once and nothing else. -/
def PlacesTreeOnce (files : List FileEntry) (packs : List PackPlacement)
    (raws : List RawPlacement) : Prop :=
  ∃ tree, normalizedFiles nfc files = .ok tree ∧ Contiguous packs raws ∧
    Known nfc tree packs raws ∧ ∀ f ∈ tree, PlacedOnce nfc packs raws f

/-- All ranges of a file: the whole file for each member, and the range of each raw volume. -/
def rangesOf (packs : List PackPlacement) (raws : List RawPlacement)
    (f : ArchiveFile) : List Range :=
  List.replicate (membersOf packs f).length ⟨0, f.bytes⟩ ++
    (rawsOf nfc raws f).map RawPlacement.range

/-- The ranges sorted by their offsets, and at one offset by their lengths. -/
def sortedRanges (ranges : List Range) : List Range :=
  sortedBy (fun r => toLex (r.offset, r.length)) ranges

/-- The ranges of every file, sorted, lead from its first to its last byte; empty ranges may stand
between them. -/
def Covered (tree : List ArchiveFile) (packs : List PackPlacement)
    (raws : List RawPlacement) : Prop :=
  ∀ f ∈ tree, rangesOf nfc packs raws f ≠ [] ∧
    Chain 0 (sortedRanges (rangesOf nfc packs raws f)) f.bytes

/-! ## What the loops gather -/

variable {f : ArchiveFile} {ranges : List Range} {α : Type} {l : List α} {path : Text} {ε : Type}

/-- A sequence of checked steps: every check passes, and the results are computed one by one. -/
theorem mapM_eq_ok_map_iff {β : Type} {f : α → Except ε β} {P : α → Prop} {g : α → β}
    (hf : ∀ a b, f a = .ok b ↔ P a ∧ b = g a) {out : List β} :
    l.mapM f = .ok out ↔ (∀ a ∈ l, P a) ∧ out = l.map g := by
  simp only [mapM_eq_ok_iff, hf]
  induction l generalizing out with
  | nil => simp
  | cons a l ih =>
    rw [forall₂_cons_left_iff, forall_mem_cons, map_cons]
    constructor
    · rintro ⟨b, rest, ⟨ha, rfl⟩, hrest, rfl⟩
      obtain ⟨hall, rfl⟩ := ih.1 hrest
      exact ⟨⟨ha, hall⟩, rfl⟩
    · rintro ⟨⟨ha, hall⟩, rfl⟩
      exact ⟨g a, l.map g, ⟨ha, rfl⟩, ih.2 ⟨hall, rfl⟩, rfl⟩

/-- A loop of checks passes exactly when every check does. -/
theorem forM_eq_ok_iff {f : α → Except ε Unit} : l.forM f = .ok () ↔ ∀ a ∈ l, f a = .ok () := by
  induction l with
  | nil => simp [pure, Except.pure]
  | cons a l ih =>
    have hcons : (a :: l).forM f = (f a >>= fun _ => l.forM f) := rfl
    rw [hcons, bind_eq_ok, forall_mem_cons, ← ih]
    exact ⟨fun ⟨_, ha, hl⟩ => ⟨ha, hl⟩, fun ⟨ha, hl⟩ => ⟨(), ha, hl⟩⟩

theorem expectedFile_eq_some_iff {tree : List ArchiveFile}
    (hn : (tree.map ArchiveFile.path).Nodup) :
    expectedFile tree path = some f ↔ f ∈ tree ∧ f.path = path := by
  constructor
  · intro h
    exact ⟨mem_of_find?_eq_some h, by simpa using find?_some h⟩
  · rintro ⟨hf, rfl⟩
    cases hfind : expectedFile tree f.path with
    | none =>
      have hnone := find?_eq_none.1 hfind f hf
      simp at hnone
    | some g =>
      have hg : g ∈ tree := mem_of_find?_eq_some hfind
      have hpath : g.path = f.path := by simpa using find?_some hfind
      rw [inj_on_of_nodup_map hn hg hf hpath]

theorem sameIdentity_iff {bytes : Int} {sha256 : Text} :
    sameIdentity f bytes sha256 = true ↔ (f.bytes : Int) = bytes ∧ f.sha256 = sha256 := by
  simp [sameIdentity]

/-- The placement of a member. -/
def memberPlacement (volumeId : Text) (m : FileEntry) : Placement :=
  ⟨m.path, ⟨0, m.bytes⟩, volumeId⟩

/-- The placement of a raw volume with a valid path. -/
def rawPlacement (raw : RawPlacement) : Placement :=
  ⟨(normalizeRelpath nfc raw.sourcePath).toOption.getD [], raw.range, raw.volumeId⟩

end

section Loops

variable {nfc : Text → Text} {tree : List ArchiveFile} {packs : List PackPlacement}
  {raws : List RawPlacement}

theorem placeMember_eq_ok_iff (hn : (tree.map ArchiveFile.path).Nodup) {volumeId : Text}
    (m : FileEntry) (p : Placement) :
    placeMember tree volumeId m = .ok p ↔
      (∃ f ∈ tree, f.path = m.path ∧ (f.bytes : Int) = m.bytes ∧ f.sha256 = m.sha256) ∧
        p = memberPlacement volumeId m := by
  simp only [placeMember, bind_eq_ok, require_eq_ok, Option.any_eq_true,
    expectedFile_eq_some_iff hn, sameIdentity_iff]
  constructor
  · rintro ⟨-, ⟨f, ⟨hf, hpath⟩, hid⟩, h⟩
    exact ⟨⟨f, hf, hpath, hid⟩, (ok.inj h).symm⟩
  · rintro ⟨⟨f, hf, hpath, hid⟩, rfl⟩
    exact ⟨(), ⟨f, ⟨hf, hpath⟩, hid⟩, rfl⟩

theorem placeRaw_eq_ok_iff (hn : (tree.map ArchiveFile.path).Nodup) (raw : RawPlacement)
    (p : Placement) :
    placeRaw nfc tree raw = .ok p ↔ (∃ f ∈ tree, normalizeRelpath nfc raw.sourcePath = .ok f.path ∧
        (f.bytes : Int) = raw.fileBytes ∧ f.sha256 = raw.fileSha256 ∧ 0 ≤ raw.fileOffset ∧
        0 ≤ raw.plaintextBytes ∧ raw.fileOffset + raw.plaintextBytes ≤ f.bytes) ∧
      p = rawPlacement nfc raw := by
  rw [placeRaw, rawPlacement]
  cases hp : normalizeRelpath nfc raw.sourcePath with
  | error e => simp
  | ok path =>
    rw [ok_bind]
    cases hf : expectedFile tree path with
    | none =>
      refine ⟨fun h => (by cases h), ?_⟩
      rintro ⟨⟨f, hmem, hpath, -⟩, -⟩
      rw [(expectedFile_eq_some_iff hn).2 ⟨hmem, (ok.inj hpath).symm⟩] at hf
      cases hf
    | some f =>
      obtain ⟨hmem, rfl⟩ := (expectedFile_eq_some_iff hn).1 hf
      simp only [bind_eq_ok, require_eq_ok, sameIdentity_iff, Bool.not_eq_true',
        Bool.or_eq_false_iff, decide_eq_false_iff_not, not_lt]
      constructor
      · rintro ⟨-, ⟨hoff, hlen⟩, -, hid, -, hin, h⟩
        exact ⟨⟨f, hmem, rfl, hid.1, hid.2, hoff, hlen, hin⟩, (ok.inj h).symm⟩
      · rintro ⟨⟨g, hg, hpath, hbytes, hsha, hoff, hlen, hin⟩, rfl⟩
        obtain rfl := inj_on_of_nodup_map hn hmem hg (ok.inj hpath)
        exact ⟨(), ⟨hoff, hlen⟩, (), ⟨hbytes, hsha⟩, (), hin, rfl⟩

/-- All placements of a plan. -/
def placements (nfc : Text → Text) (packs : List PackPlacement) (raws : List RawPlacement) :
    List Placement :=
  (packs.flatMap fun pack => pack.members.map (memberPlacement pack.volumeId)) ++
    raws.map (rawPlacement nfc)

theorem map_range_filter_placements (hn : (tree.map ArchiveFile.path).Nodup)
    (hk : Known nfc tree packs raws) {f : ArchiveFile} (hf : f ∈ tree) :
    ((placements nfc packs raws).filter fun p => p.path == f.path).map Placement.range =
      rangesOf nfc packs raws f := by
  rw [placements, filter_append, map_append, rangesOf]
  congr 1
  · -- a member that names the file has its size
    have hmember : ∀ m ∈ membersOf packs f, (⟨0, m.bytes⟩ : Range) = ⟨0, f.bytes⟩ := by
      intro m hm
      obtain ⟨hmem, hpath⟩ := mem_filter.1 hm
      obtain ⟨pack, hpack, hm'⟩ := mem_flatMap.1 hmem
      obtain ⟨g, hg, hgp, hgb, -⟩ := hk.member pack hpack m hm'
      have hpath : m.path = f.path := by simpa using hpath
      obtain rfl := inj_on_of_nodup_map hn hg hf (hgp.trans hpath)
      rw [hgb]
    rw [← map_eq_replicate_iff.2 hmember, membersOf]
    clear hmember hk
    induction packs with
    | nil => rfl
    | cons pack rest ih =>
      rw [flatMap_cons, flatMap_cons, filter_append, filter_append,
        map_append, map_append, ih, filter_map, map_map]
      rfl
  · rw [filter_map, map_map, rawsOf]
    have hfilter : raws.filter ((fun p : Placement => p.path == f.path) ∘ rawPlacement nfc) =
        raws.filter fun raw => normalizeRelpath nfc raw.sourcePath == .ok f.path := by
      refine filter_congr fun raw hraw => ?_
      obtain ⟨g, -, hpath, -⟩ := hk.raw raw hraw
      simp [rawPlacement, hpath, Except.toOption]
    rw [hfilter]
    rfl

end Loops

/-! ## The walk over the ranges of a file -/

theorem walkRanges_eq_ok_iff {start stop : Int} :
    walkRanges path start ranges = .ok stop ↔ Chain start ranges stop := by
  induction ranges generalizing start with
  | nil => simp [walkRanges, Chain]
  | cons r rest ih =>
    simp only [walkRanges, bind_eq_ok, require_eq_ok, ih, Chain, exists_const, Bool.not_eq_true',
      Bool.or_eq_false_iff, bne_eq_false_iff_eq, decide_eq_false_iff_not, not_lt, and_assoc]

/-- Ranges in one order: sorted by offset and then by length. -/
theorem eq_of_sorted_perm {ranges' : List Range} (hp : ranges.Perm ranges')
    (hs : ranges.Pairwise fun r r' => toLex (r.offset, r.length) ≤ toLex (r'.offset, r'.length))
    (hs' : ranges'.Pairwise fun r r' =>
      toLex (r.offset, r.length) ≤ toLex (r'.offset, r'.length)) : ranges = ranges' := by
  refine hp.eq_of_pairwise (fun a b _ _ hab hba => ?_) hs hs'
  have he := toLex.injective (le_antisymm hab hba)
  cases a
  cases b
  simpa using he

/-- The sorted placements of a file, read as ranges. -/
theorem map_range_sortedPlacements (coverage : List Placement) (path : Text) :
    (sortedPlacements coverage path).map Placement.range =
      sortedRanges ((coverage.filter fun p => p.path == path).map Placement.range) := by
  refine eq_of_sorted_perm ?_ ?_ (pairwise_sortedBy _ _)
  · exact ((sortedBy_perm _ _).map _).trans (sortedBy_perm _ _).symm
  · rw [pairwise_map]
    refine (pairwise_sortedBy _ _).imp fun {a b} hab => ?_
    rw [Prod.Lex.toLex_le_toLex] at hab ⊢
    refine hab.imp_right fun h => ⟨h.1, ?_⟩
    rcases Prod.Lex.toLex_le_toLex.1 h.2 with hlt | heq
    · exact hlt.le
    · exact heq.1.le

theorem sortedRanges_perm (ranges : List Range) : (sortedRanges ranges).Perm ranges :=
  sortedBy_perm _ ranges

theorem pairwise_sortedRanges (ranges : List Range) :
    (sortedRanges ranges).Pairwise fun r r' => r.offset ≤ r'.offset := by
  refine (pairwise_sortedBy _ ranges).imp fun {a b} hab => ?_
  rcases Prod.Lex.toLex_le_toLex.1 hab with hlt | heq
  · exact hlt.le
  · exact heq.1.le

theorem validateFileCoverage_eq_ok_iff {coverage : List Placement}
    (hr : (coverage.filter fun p => p.path == f.path).map Placement.range = ranges) :
    validateFileCoverage coverage f = .ok () ↔
      ranges ≠ [] ∧ Chain 0 (sortedRanges ranges) f.bytes := by
  have hne : (sortedRanges ranges).isEmpty = ranges.isEmpty := by
    rw [Bool.eq_iff_iff, List.isEmpty_iff, List.isEmpty_iff, ← List.perm_nil, ← List.perm_nil]
    exact ⟨(sortedRanges_perm _).symm.trans, (sortedRanges_perm _).trans⟩
  simp only [validateFileCoverage, map_range_sortedPlacements, hr, bind_eq_ok, require_eq_ok,
    walkRanges_eq_ok_iff, beq_iff_eq, Bool.not_eq_true', hne, List.isEmpty_eq_false_iff]
  constructor
  · rintro ⟨-, hnil, stop, hchain, rfl⟩
    exact ⟨hnil, hchain⟩
  · rintro ⟨hnil, hchain⟩
    exact ⟨(), hnil, _, hchain, rfl⟩

/-! ## The plans that pass -/

/-- The sorted sequence numbers are `0, 1, …` exactly when the numbers are, in some order. -/
theorem sorted_sequences_iff {packs : List PackPlacement} {raws : List RawPlacement} :
    sortedBy id (sequences packs raws) =
        (range (sortedBy id (sequences packs raws)).length).map Int.ofNat ↔
      Contiguous packs raws := by
  have hp := sortedBy_perm id (sequences packs raws)
  rw [hp.length_eq, Contiguous]
  refine ⟨fun h => h ▸ hp.symm, fun h => ?_⟩
  refine (hp.trans h).eq_of_pairwise (fun a b _ _ => le_antisymm) (pairwise_sortedBy _ _) ?_
  rw [pairwise_map]
  exact pairwise_lt_range.imp fun {a b} hab => Int.ofNat_le.2 hab.le

section Validation

variable {nfc : Text → Text} {files : List FileEntry} {tree : List ArchiveFile}
  {packs : List PackPlacement} {raws : List RawPlacement}

theorem packed_iff (hn : (tree.map ArchiveFile.path).Nodup) {packed : List (List Placement)} :
    (packs.mapM fun pack => pack.members.mapM (placeMember tree pack.volumeId)) = .ok packed ↔
      (∀ pack ∈ packs, ∀ m ∈ pack.members, ∃ f ∈ tree,
        f.path = m.path ∧ (f.bytes : Int) = m.bytes ∧ f.sha256 = m.sha256) ∧
      packed = packs.map fun pack => pack.members.map (memberPlacement pack.volumeId) :=
  mapM_eq_ok_map_iff fun _ _ => mapM_eq_ok_map_iff (placeMember_eq_ok_iff hn)

/-- Exactly the plans that `validate_collection_archive_plan` accepts. -/
theorem validateCollectionArchivePlan_eq_ok_iff :
    validateCollectionArchivePlan nfc files packs raws = .ok tree ↔
      normalizedFiles nfc files = .ok tree ∧ Contiguous packs raws ∧
      (volumeIds packs raws).Nodup ∧ Known nfc tree packs raws ∧ Covered nfc tree packs raws := by
  have hflat : placements nfc packs raws =
      (packs.map fun pack => pack.members.map (memberPlacement pack.volumeId)).flatten ++
        raws.map (rawPlacement nfc) := by
    rw [placements, flatMap_def]
  have hwalk : ∀ {tree : List ArchiveFile}, (tree.map ArchiveFile.path).Nodup →
      Known nfc tree packs raws →
      (tree.forM (validateFileCoverage (placements nfc packs raws)) = .ok () ↔
        Covered nfc tree packs raws) := by
    intro tree hn hk
    rw [forM_eq_ok_iff]
    exact forall₂_congr fun f hf =>
      validateFileCoverage_eq_ok_iff (map_range_filter_placements hn hk hf)
  simp only [validateCollectionArchivePlan, bind_eq_ok, require_eq_ok, beq_iff_eq,
    sorted_sequences_iff, decide_eq_true_eq]
  constructor
  · rintro ⟨normalized, hnorm, -, hseq, -, hids, packed, hpacked, placed, hplaced, ⟨⟩, hcover, h⟩
    obtain rfl := ok.inj h
    have hn := (normalizedFiles_spec hnorm).2.1
    obtain ⟨hmember, rfl⟩ := (packed_iff hn).1 hpacked
    obtain ⟨hraw, rfl⟩ := (mapM_eq_ok_map_iff (placeRaw_eq_ok_iff hn)).1 hplaced
    rw [← hflat] at hcover
    exact ⟨hnorm, hseq, hids, ⟨hmember, hraw⟩, (hwalk hn ⟨hmember, hraw⟩).1 hcover⟩
  · rintro ⟨hnorm, hseq, hids, hk, hcover⟩
    have hn := (normalizedFiles_spec hnorm).2.1
    refine ⟨tree, hnorm, (), hseq, (), hids, _, (packed_iff hn).2 ⟨hk.member, rfl⟩, _,
      (mapM_eq_ok_map_iff (placeRaw_eq_ok_iff hn)).2 ⟨hk.raw, rfl⟩, (), ?_, rfl⟩
    rw [← hflat]
    exact (hwalk hn hk).2 hcover

/-- A file is placed once exactly when its ranges lead through it and an empty one stands alone. -/
theorem placedOnce_iff (f : ArchiveFile) :
    PlacedOnce nfc packs raws f ↔
      (rangesOf nfc packs raws f ≠ [] ∧ Chain 0 (sortedRanges (rangesOf nfc packs raws f)) f.bytes) ∧
        NoSurplus (rangesOf nfc packs raws f) := by
  have hsize : (0 : ℤ) ≤ f.bytes := Int.natCast_nonneg _
  have hperm := sortedRanges_perm (rangesOf nfc packs raws f)
  have htiles : PlacedOnce nfc packs raws f ↔ TilesOnce (rangesOf nfc packs raws f) f.bytes := by
    rw [rangesOf, tilesOnce_replicate_append_iff hsize, map_eq_nil_iff, PlacedOnce,
      length_eq_zero_iff]
  have hnil : sortedRanges (rangesOf nfc packs raws f) ≠ [] ↔ rangesOf nfc packs raws f ≠ [] :=
    not_congr ⟨fun h => nil_perm.1 (h ▸ hperm), fun h => perm_nil.1 (h ▸ hperm)⟩
  rw [htiles, ← tilesOnce_perm hperm, tilesOnce_iff_chain hsize (pairwise_sortedRanges _), hnil,
    and_assoc]
  have hsurplus : NoSurplus (sortedRanges (rangesOf nfc packs raws f)) ↔
      NoSurplus (rangesOf nfc packs raws f) := ⟨.perm hperm, .perm hperm.symm⟩
  rw [hsurplus]

/-- The validation accepts exactly the plans that place the tree once, where, of the contiguous plans
that cover their files, those with distinct volume ids are those without a surplus empty placement. -/
theorem accepts_iff_placesTreeOnce_iff :
    ((∃ tree, validateCollectionArchivePlan nfc files packs raws = .ok tree) ↔
      PlacesTreeOnce nfc files packs raws) ↔
    ∀ tree, normalizedFiles nfc files = .ok tree → Contiguous packs raws →
      Known nfc tree packs raws → Covered nfc tree packs raws →
      ((volumeIds packs raws).Nodup ↔ ∀ f ∈ tree, NoSurplus (rangesOf nfc packs raws f)) := by
  have honce : ∀ tree, (∀ f ∈ tree, PlacedOnce nfc packs raws f) ↔
      Covered nfc tree packs raws ∧ ∀ f ∈ tree, NoSurplus (rangesOf nfc packs raws f) := by
    intro tree
    simp only [placedOnce_iff, Covered, ← forall₂_and]
  simp only [PlacesTreeOnce, validateCollectionArchivePlan_eq_ok_iff, honce]
  constructor
  · intro h tree hnorm hseq hk hcover
    constructor
    · intro hids
      obtain ⟨tree', hnorm', -, -, -, hsurplus⟩ := h.1 ⟨tree, hnorm, hseq, hids, hk, hcover⟩
      obtain rfl := ok.inj (hnorm.symm.trans hnorm')
      exact hsurplus
    · intro hsurplus
      obtain ⟨_, -, -, hids, -⟩ := h.2 ⟨tree, hnorm, hseq, hk, hcover, hsurplus⟩
      exact hids
  · intro h
    constructor
    · rintro ⟨tree, hnorm, hseq, hids, hk, hcover⟩
      exact ⟨tree, hnorm, hseq, hk, hcover, (h tree hnorm hseq hk hcover).1 hids⟩
    · rintro ⟨tree, hnorm, hseq, hk, hcover, hsurplus⟩
      exact ⟨tree, hnorm, hseq, (h tree hnorm hseq hk hcover).2 hsurplus, hk, hcover⟩

end Validation

/-- An empty file in two packs is accepted. -/
theorem accepts_empty_file_twice :
    ∃ files packs tree, validateCollectionArchivePlan id files packs [] = .ok tree ∧
      ¬ PlacesTreeOnce id files packs [] := by
  let f : FileEntry := ⟨['a'], 0, List.replicate 64 'e'⟩
  let packs : List PackPlacement := [⟨['p'], 0, [f]⟩, ⟨['q'], 1, [f]⟩]
  refine ⟨[f], packs, [⟨['a'], 0, List.replicate 64 'e'⟩], by decide +kernel, ?_⟩
  rintro ⟨tree, hnorm, -, -, honce⟩
  have htree : normalizedFiles id [f] = .ok [⟨['a'], 0, List.replicate 64 'e'⟩] := by
    decide +kernel
  obtain rfl := ok.inj (hnorm.symm.trans htree)
  rcases honce _ List.mem_cons_self with ⟨hone, -⟩ | ⟨hnone, -⟩
  · exact absurd hone (by decide +kernel)
  · exact absurd hnone (by decide +kernel)

end Riverhog.Manifest
