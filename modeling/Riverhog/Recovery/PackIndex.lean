import Riverhog.Core.JsonRoundtrip
import Riverhog.Pack.Layout
import Riverhog.Recovery.Checks

/-!
# The index of a pack

`_parse_pack_index` of `riverhog_recover.recovery`: the reader of the document that
`_pack_index_bytes` writes. The two were written separately; `parsePackIndex_plan`
says that the reader accepts the index of every plan and returns its members.
-/

namespace Riverhog.Recovery

open Core Json Pack Protocol List

/-- The fields of a pack volume that recovery compares with the pack. -/
structure PackArchiveVolume where
  id : Text
  sequence : Nat
  files : Nat
  sourceBytes : Nat
  indexSha256 : Text

/-- A file as the index describes it. -/
structure PackFileIdentity where
  path : Text
  bytes : Nat
  sha256 : Text
  headerOffset : Nat
  dataOffset : Nat

/-- `str(value)` of a JSON value, for the values that are no containers and no floats. -/
def pyStr : Json → Rec Text
  | .str t => .ok t
  | .int n => .ok (Json.renderInt n)
  | .null => .ok "None"
  | .bool true => .ok "True"
  | .bool false => .ok "False"
  | _ => .error .unmodelled

/-- `PACK_INDEX_SCHEMA`. -/
def packIndexSchema : Text := "riverhog-pack-index/v1"

/-- The keys of a row of the index. -/
def indexFileKeys : List Text :=
  ["path", "bytes", "sha256", "unit", "header_offset", "data_offset"]

/-- One row of the index: the file and its unit. -/
def parseIndexFile (raw : Json) : Rec (PackFileIdentity × Nat) :=
  match raw with
  | .obj row => do
    require (keysAre row indexFileKeys) (.recoveryError "pack index file is invalid")
    let text ← pyStr ((lookup row "path").getD (.str []))
    let path ← normalizeRelpath text
    let bytes ← requiredNonnegativeInt row "bytes"
    let sha256 ← requiredSha256 row "sha256"
    let headerOffset ← requiredNonnegativeInt row "header_offset"
    let dataOffset ← requiredNonnegativeInt row "data_offset"
    let unit ← requiredNonnegativeInt row "unit"
    return (⟨path, bytes, sha256, headerOffset, dataOffset⟩, unit)
  | _ => .error (.recoveryError "pack index file is invalid")

/-- The loop over the rows; `previousDataOffset` and `previousUnit` start at `-1`. -/
def parseIndexFiles : List Json → Int → Int → List Text → Rec (List PackFileIdentity)
  | [], _, _, _ => .ok []
  | raw :: rows, previousDataOffset, previousUnit, seen => do
    let (current, unit) ← parseIndexFile raw
    require (!(".riverhog/".toList.isPrefixOf current.path || seen.contains current.path))
      (.recoveryError "pack index file path is invalid")
    require (!(current.dataOffset ≤ current.headerOffset || (current.dataOffset : Int) ≤
        previousDataOffset || (unit : Int) < previousUnit || (unit : Int) > previousUnit + 1 ||
        (previousUnit < 0 && unit != 0)))
      (.recoveryError "pack index file offsets or units are invalid")
    let files ← parseIndexFiles rows current.dataOffset unit (current.path :: seen)
    return current :: files

/-- `_parse_pack_index`. -/
def parsePackIndex (content : Bytes) (volume : PackArchiveVolume) :
    Rec (List PackFileIdentity) := do
  match (decodeUtf8 content).bind loads with
  | none => .error .valueError
  | some (.obj payload) => do
    require (match lookup payload "schema" with
        | some (.str t) => t == packIndexSchema
        | _ => false) (.recoveryError "pack index schema is invalid")
    require (keysAre payload ["schema", "volume", "tree", "files"])
      (.recoveryError "pack index schema is invalid")
    match lookup payload "volume", lookup payload "tree", lookup payload "files" with
    | some (.obj volumeRow), some (.obj tree), some (.arr rawFiles) => do
      require (keysAre volumeRow ["id", "sequence"] && keysAre tree ["files", "bytes", "sha256"])
        (.recoveryError "pack index structure is invalid")
      require (match lookup volumeRow "id" with
          | some (.str t) => t == volume.id
          | _ => false) (.recoveryError "pack index volume id mismatch")
      let sequence ← requiredNonnegativeInt volumeRow "sequence"
      require (sequence == volume.sequence) (.recoveryError "pack index volume sequence mismatch")
      let files ← parseIndexFiles rawFiles (-1) (-1) []
      let totalBytes := (files.map PackFileIdentity.bytes).sum
      require (volume.files == files.length && volume.sourceBytes == totalBytes)
        (.recoveryError "pack index counts do not match the root manifest")
      let treeFiles ← requiredNonnegativeInt tree "files"
      require (treeFiles == files.length) (.recoveryError "pack index tree file count mismatch")
      let treeBytes ← requiredNonnegativeInt tree "bytes"
      require (treeBytes == totalBytes) (.recoveryError "pack index tree byte count mismatch")
      let treeSha256 ← requiredSha256 tree "sha256"
      require (treeSha256 == sha256Hex (files.flatMap fun f => treeLine f.path f.bytes f.sha256))
        (.recoveryError "pack index tree sha256 mismatch")
      return files
    | _, _, _ => .error (.recoveryError "pack index structure is invalid")
  | some _ => .error (.recoveryError "pack index schema is invalid")

/-! ## Rows -/

/-- A planned member as the index describes it. -/
def identity (m : PackMemberPlan) : PackFileIdentity :=
  ⟨m.path, m.bytes, m.sha256, m.headerOffset, m.dataOffset⟩

variable {rest : List PackMemberPlan} {unit : Nat} {key volumeId : Text}

theorem requiredNonnegativeInt_nat {members : List (Text × Json)} {n : Nat}
    (h : lookup members key = some (.nat n)) : requiredNonnegativeInt members key = .ok n := by
  rw [requiredNonnegativeInt, h, Json.nat]
  dsimp only
  rw [if_neg (by omega), Int.toNat_natCast]

theorem requiredSha256_str {members : List (Text × Json)} {t : Text}
    (h : lookup members key = some (.str t)) (ht : isSha256 t = true) :
    requiredSha256 members key = .ok t := by
  rw [requiredSha256, h]
  dsimp only
  rw [if_pos ht]

/-- A row is read back. -/
theorem parseIndexFile_toJson {m : PackMemberPlan} {parts : List Text} (hp : IsRelpath m.path parts)
    (hs : isSha256 m.sha256 = true) :
    parseIndexFile (sortKeys m.toJson) = .ok (identity m, m.unit) := by
  obtain ⟨row, hrow⟩ : ∃ row, m.toJson = .obj row ∧ row.map Prod.fst = indexFileKeys ∧
      lookup row "path" = some (.str m.path) ∧
      lookup row "bytes" = some (.nat m.bytes) ∧
      lookup row "sha256" = some (.str m.sha256) ∧
      lookup row "unit" = some (.nat m.unit) ∧
      lookup row "header_offset" = some (.nat m.headerOffset) ∧
      lookup row "data_offset" = some (.nat m.dataOffset) :=
    ⟨_, rfl, rfl, rfl, rfl, rfl, rfl, rfl, rfl⟩
  obtain ⟨hjson, hkeys, hpath, hbytes, hsha, hunit, hheader, hdata⟩ := hrow
  have hnodup : (row.map Prod.fst).Nodup := by
    rw [hkeys]
    decide
  have hlookup := lookup_sortKeys hnodup
  have hare : keysAre row indexFileKeys = true := by
    rw [keysAre_iff, hkeys]
    exact fun key => Iff.rfl
  rw [hjson, sortKeys, parseIndexFile, keysAre_sortKeys, hare, require_true, ok_bind, hlookup, hpath, Option.map_some,
    Option.getD_some, sortKeys, pyStr, ok_bind, normalizeRelpath_of_isRelpath hp, ok_bind,
    requiredNonnegativeInt_nat (by rw [hlookup, hbytes]; rfl), ok_bind,
    requiredSha256_str (by rw [hlookup, hsha]; rfl) hs, ok_bind,
    requiredNonnegativeInt_nat (by rw [hlookup, hheader]; rfl), ok_bind,
    requiredNonnegativeInt_nat (by rw [hlookup, hdata]; rfl), ok_bind,
    requiredNonnegativeInt_nat (by rw [hlookup, hunit]; rfl), ok_bind]
  rfl

/-- What the reader of the index asks of consecutive members. -/
structure RowStep (previousDataOffset previousUnit : Int) (m : PackMemberPlan) : Prop where
  offsets : m.headerOffset < m.dataOffset
  increasing : previousDataOffset < m.dataOffset
  unit_ge : previousUnit ≤ m.unit
  unit_le : (m.unit : Int) ≤ previousUnit + 1

/-- The members follow each other as the reader of the index asks. -/
def RowsFrom : Int → Int → List PackMemberPlan → Prop
  | _, _, [] => True
  | previousDataOffset, previousUnit, m :: members =>
    RowStep previousDataOffset previousUnit m ∧ RowsFrom m.dataOffset m.unit members

/-- What the reader of the index asks of one member. -/
def GoodRow (m : PackMemberPlan) : Prop :=
  (∃ parts, IsRelpath m.path parts) ∧ isSha256 m.sha256 = true ∧
    reservedArchivePrefix.isPrefixOf m.path = false

variable {maxMemberBytes previousDataOffset previousUnit : Int} {files : List ArchiveFile}
  {members : List PackMemberPlan} {start stop : Nat} {plan : PackVolumePlan} {nfc : Text → Text}

/-- The rows are read back. -/
theorem parseIndexFiles_toJson {seen : List Text} (hg : ∀ m ∈ members, GoodRow m)
    (hr : RowsFrom previousDataOffset previousUnit members) (hu : -1 ≤ previousUnit)
    (hn : (members.map PackMemberPlan.path).Nodup) (hs : ∀ m ∈ members, m.path ∉ seen) :
    parseIndexFiles (members.map fun m => sortKeys m.toJson) previousDataOffset previousUnit
      seen = .ok (members.map identity) := by
  induction members generalizing previousDataOffset previousUnit seen with
  | nil => rfl
  | cons m members ih =>
    obtain ⟨⟨⟨parts, hp⟩, hsha, hres⟩, hgrest⟩ := forall_mem_cons.1 hg
    obtain ⟨hseen, hsrest⟩ := forall_mem_cons.1 hs
    obtain ⟨hstep, hrest⟩ := hr
    rw [map_cons, nodup_cons] at hn
    have hpath : (!(".riverhog/".toList.isPrefixOf (identity m).path ||
        seen.contains (identity m).path)) = true := by
      have hres' : ".riverhog/".toList.isPrefixOf (identity m).path = false := hres
      rw [hres', Bool.false_or, Bool.not_eq_true']
      simpa [identity] using hseen
    have hcheck : (!((identity m).dataOffset ≤ (identity m).headerOffset ||
        ((identity m).dataOffset : Int) ≤ previousDataOffset || (m.unit : Int) < previousUnit ||
        (m.unit : Int) > previousUnit + 1 || (previousUnit < 0 && m.unit != 0))) = true := by
      obtain ⟨h₁, h₂, h₃, h₄⟩ := hstep
      have h₅ : previousUnit < 0 → m.unit = 0 := by omega
      dsimp only [identity]
      simp only [Bool.not_eq_true', Bool.or_eq_false_iff, decide_eq_false_iff_not,
        Bool.and_eq_false_imp, decide_eq_true_eq, bne_eq_false_iff_eq]
      refine ⟨⟨⟨⟨decide_eq_false ?_, decide_eq_false ?_⟩, ?_⟩, ?_⟩, h₅⟩ <;> omega
    have hnew : ∀ m' ∈ members, m'.path ∉ (identity m).path :: seen := by
      intro m' hm' hmem
      rcases mem_cons.1 hmem with he | hmem
      · have he' : m'.path = m.path := he
        exact hn.1 (he' ▸ mem_map_of_mem hm')
      · exact hsrest m' hm' hmem
    rw [map_cons, parseIndexFiles, parseIndexFile_toJson hp hsha, ok_bind]
    dsimp only
    rw [hpath, require_true, ok_bind, hcheck, require_true, ok_bind]
    rw [show ((identity m).dataOffset : Int) = m.dataOffset from rfl,
      ih hgrest hrest (by omega) hn.2 hnew]
    rfl

/-! ## The members of a plan -/

theorem rowsFrom_laid (h : Laid unit start files members stop) (hd : previousDataOffset ≤ start)
    (hu : previousUnit ≤ unit ∧ unit ≤ previousUnit + 1) (hne : files ≠ [] ∨ previousUnit = unit)
    (hrest : ∀ d : Int, d ≤ stop → RowsFrom d unit rest) :
    RowsFrom previousDataOffset previousUnit (members ++ rest) := by
  induction h generalizing previousDataOffset previousUnit with
  | nil start =>
    rw [hne.resolve_left fun h => h rfl]
    exact hrest _ hd
  | @cons start stop f header files members hh _ ih =>
    have hpos := (tarHeader_length hh).2
    refine ⟨⟨?_, ?_, hu.1, hu.2⟩, ih ?_ ⟨le_rfl, ?_⟩ (.inr rfl) hrest⟩ <;>
      dsimp only [placedAt] <;> omega

theorem paddingLaid_le {padding : Option PackPaddingPlan}
    (h : PaddingLaid volumeId unit start padding stop) : start ≤ stop := by
  cases h with
  | none => exact le_rfl
  | some _ _ hs => omega

theorem rowsFrom_unitsLaid {index last : Nat} {units : List PackUploadUnitPlan}
    (h : UnitsLaid volumeId index start units members last stop) (hd : previousDataOffset ≤ start)
    (hu : previousUnit + 1 = index) (hrest : ∀ d : Int, d ≤ stop → RowsFrom d (last - 1) rest) :
    RowsFrom previousDataOffset previousUnit (members ++ rest) := by
  induction h generalizing previousDataOffset previousUnit with
  | nil index start =>
    rw [show previousUnit = index - 1 by omega]
    exact hrest _ hd
  | @cons index start middle stop last final sources padding units members rest' hne hl hp _ ih =>
    rw [append_assoc]
    refine rowsFrom_laid hl hd ⟨by omega, by omega⟩ (.inl hne) fun d hd' => ?_
    have hle := paddingLaid_le hp
    exact ih (by omega) (by push_cast; omega) hrest

/-- The members of a plan follow each other as the reader of the index asks. -/
theorem rowsFrom_plan (h : PlanLaid nfc files maxMemberBytes plan) :
    RowsFrom (-1) (-1) plan.members := by
  obtain ⟨units, done, current, sources, index, start, cursor, indexHeader, -, hmem, hunits, hlaid,
    hne, -⟩ := h.units
  rw [hmem]
  refine rowsFrom_unitsLaid hunits (by decide) (by decide) fun d hd => ?_
  have hrows : RowsFrom d (index - 1) (current ++ []) :=
    rowsFrom_laid hlaid hd ⟨by omega, by omega⟩ (.inl hne) fun _ _ => trivial
  rwa [append_nil] at hrows

theorem goodRow_plan (h : PlanLaid nfc files maxMemberBytes plan) :
    ∀ m ∈ plan.members, GoodRow m := by
  intro m hm
  obtain ⟨hfiles, -, -⟩ := normalizedFiles_spec h.normalized
  obtain ⟨f, -, hpath, -, -, hsha, hres⟩ := hfiles m.file (mem_map_of_mem hm)
  exact ⟨⟨_, normalizeRelpath_spec hpath⟩, hsha, hres⟩

/-- The volume that the server records for a plan. -/
def planVolume (plan : PackVolumePlan) : PackArchiveVolume :=
  ⟨plan.volumeId, plan.sequence, plan.members.length, (plan.members.map PackMemberPlan.bytes).sum,
    plan.indexSha256⟩

theorem canonical_toJson (m : PackMemberPlan) : Canonical m.toJson := by
  have hkeys : ["path".toList, "bytes".toList, "sha256".toList, "unit".toList,
    "header_offset".toList, "data_offset".toList].Nodup := by decide
  rw [PackMemberPlan.toJson, Canonical]
  refine ⟨hkeys, ?_⟩
  simp only [CanonicalMembers, Canonical, Json.nat, and_true]

theorem canonical_packIndex (volumeId : Text) (sequence : Nat) (members : List PackMemberPlan) :
    Canonical (packIndex volumeId sequence members) := by
  have hkeys : ["schema".toList, "volume".toList, "tree".toList, "files".toList].Nodup := by decide
  have hvolume : ["id".toList, "sequence".toList].Nodup := by decide
  have htree : ["files".toList, "bytes".toList, "sha256".toList].Nodup := by decide
  have hrows : CanonicalItems (members.map PackMemberPlan.toJson) := by
    rw [canonicalItems_iff, forall_mem_map]
    exact fun m _ => canonical_toJson m
  rw [packIndex, Canonical]
  refine ⟨hkeys, ?_⟩
  simp only [CanonicalMembers, Canonical, Json.nat, and_true, true_and, hrows]
  exact ⟨hvolume, htree⟩

/-- The reader of the index accepts the index of every plan and returns its members. -/
theorem parsePackIndex_plan (h : PlanLaid nfc files maxMemberBytes plan) :
    parsePackIndex plan.indexBytes (planVolume plan) = .ok (plan.members.map identity) := by
  have hload : (decodeUtf8 plan.indexBytes).bind loads =
      some (sortKeys (packIndex plan.volumeId plan.sequence plan.members)) := by
    rw [h.indexBytes, packIndexBytes, canonicalJsonBytes, decodeUtf8_encodeUtf8, Option.bind_some,
      loads_dumps false (canonical_packIndex _ _ _)]
  set bytes := (plan.members.map PackMemberPlan.bytes).sum with hbytes
  set digest := sha256Hex (plan.members.flatMap fun m => treeLine m.path m.bytes m.sha256)
    with hdigest
  -- the three objects of the document, as the reader looks into them
  obtain ⟨volumeRow, hvkeys, hid, hsequence, tree, htkeys, htfiles, htbytes, htsha, payload, hjson,
      hpkeys, hschema, hvolume, htree, hfiles⟩ :
      ∃ volumeRow, volumeRow.map Prod.fst = ["id".toList, "sequence".toList] ∧
        lookup volumeRow "id".toList = some (.str plan.volumeId) ∧
        lookup volumeRow "sequence".toList = some (.nat plan.sequence) ∧
      ∃ tree, tree.map Prod.fst = ["files".toList, "bytes".toList, "sha256".toList] ∧
        lookup tree "files".toList = some (.nat plan.members.length) ∧
        lookup tree "bytes".toList = some (.nat bytes) ∧
        lookup tree "sha256".toList = some (.str digest) ∧
      ∃ payload, packIndex plan.volumeId plan.sequence plan.members = .obj payload ∧
        payload.map Prod.fst = ["schema".toList, "volume".toList, "tree".toList, "files".toList] ∧
        lookup payload "schema".toList = some (.str packIndexSchema) ∧
        lookup payload "volume".toList = some (.obj volumeRow) ∧
        lookup payload "tree".toList = some (.obj tree) ∧
        lookup payload "files".toList = some (.arr (plan.members.map PackMemberPlan.toJson)) :=
    ⟨_, rfl, rfl, rfl, _, rfl, rfl, rfl, rfl, _, rfl, rfl, rfl, rfl, rfl, rfl⟩
  have hnodup : ∀ {members : List (Text × Json)} {keys : List Text}, members.map Prod.fst = keys →
      keys.Nodup → (members.map Prod.fst).Nodup := fun he hk => he ▸ hk
  have hare : ∀ {members : List (Text × Json)} {keys : List Text}, members.map Prod.fst = keys →
      keysAre (sortedBy Prod.fst (sortKeysMembers members)) keys = true := by
    intro members keys he
    rw [keysAre_sortKeys, keysAre_iff, he]
    exact fun key => Iff.rfl
  have hpayload := lookup_sortKeys (hnodup hpkeys (by decide))
  have hvrow := lookup_sortKeys (hnodup hvkeys (by decide))
  have htrow := lookup_sortKeys (hnodup htkeys (by decide))
  have hrows : parseIndexFiles (plan.members.map fun m => sortKeys m.toJson) (-1) (-1) [] =
      .ok (plan.members.map identity) :=
    parseIndexFiles_toJson (goodRow_plan h) (rowsFrom_plan h) le_rfl h.nodup_path
      fun _ _ => not_mem_nil
  have hsum : ((plan.members.map identity).map PackFileIdentity.bytes).sum = bytes := by
    rw [map_map]
    rfl
  have htreeSha : sha256Hex ((plan.members.map identity).flatMap
      fun f => treeLine f.path f.bytes f.sha256) = digest := by
    rw [flatMap_map]
    rfl
  rw [parsePackIndex, hload, hjson, sortKeys]
  simp only [hpayload, hschema, hvolume, htree, hfiles, Option.map_some, sortKeys, BEq.rfl,
    require_true, ok_bind, hare hpkeys, hare hvkeys, hare htkeys, Bool.and_self, hvrow, hid,
    sortKeysItems_eq_map, map_map]
  have hcounts : ((planVolume plan).files == (plan.members.map identity).length &&
      (planVolume plan).sourceBytes == bytes) = true := by
    rw [length_map]
    simp [planVolume, hbytes]
  rw [show plan.volumeId == (planVolume plan).id from BEq.rfl, require_true, ok_bind,
    requiredNonnegativeInt_nat (by rw [hvrow, hsequence]; rfl), ok_bind,
    show plan.sequence == (planVolume plan).sequence from BEq.rfl, require_true, ok_bind,
    show (sortKeys ∘ PackMemberPlan.toJson) = fun m => sortKeys m.toJson from rfl, hrows,
    ok_bind, hsum, htreeSha, hcounts, require_true, ok_bind,
    requiredNonnegativeInt_nat (by rw [htrow, htfiles]; rfl), ok_bind, length_map, BEq.rfl,
    require_true, ok_bind, requiredNonnegativeInt_nat (by rw [htrow, htbytes]; rfl), ok_bind,
    BEq.rfl, require_true, ok_bind,
    requiredSha256_str (by rw [htrow, htsha]; rfl) (isSha256_sha256Hex _), ok_bind, BEq.rfl,
    require_true, ok_bind]
  rfl

end Riverhog.Recovery
