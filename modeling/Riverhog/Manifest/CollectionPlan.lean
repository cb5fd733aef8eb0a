import Riverhog.Manifest.PlanCoverage
import Riverhog.Upload.VolumeOrder

/-!
# Planning a whole collection

`plan_collection_volumes` of `riverhog_core.collection_plan`: all small files, in path
order, fill packs, and the large ones become segments numbered after the packs. Every
file is placed once and the plan passes `validate_collection_archive_plan`, as long as
a path needs to be normalised only once (`StablePaths`): the plan keeps the paths after
one normalisation, its packs after three.
-/

namespace Riverhog.Manifest

open Core Core.Tiling Protocol Pack Upload Greedy List Except

/-! ## The planner -/

/-- The loop of `_normalized_files` of the planner. -/
def normalizePlanEntries (nfc : Text → Text) : List FileEntry → List Text → Py (List ArchiveFile)
  | [], _ => .ok []
  | current :: rest, seen => do
    let path ← normalizeRelpath nfc current.path
    require (!(reservedArchivePrefix.isPrefixOf path || seen.contains path)) (.valueError
      ("collection volume plan path is invalid: " ++ String.ofList path))
    require (!(current.bytes < 0 || !isSha256 current.sha256)) (.valueError
      ("collection volume plan file identity is invalid: " ++ String.ofList path))
    let out ← normalizePlanEntries nfc rest (path :: seen)
    return ⟨path, current.bytes.toNat, current.sha256⟩ :: out

/-- `_normalized_files` of the planner. -/
def normalizedPlanFiles (nfc : Text → Text) (files : List FileEntry) : Py (List ArchiveFile) := do
  let out ← normalizePlanEntries nfc files []
  require (!out.isEmpty) (.valueError "collection volume plan requires at least one file")
  return sortedBy ArchiveFile.path out

/-- `CollectionVolumePlan`. -/
structure CollectionVolumePlan where
  files : List ArchiveFile
  policy : CollectionVolumePolicy
  packs : List PackVolumePlan
  rawVolumes : List RawVolumePlan
  treeSha256 : Text
  planSha256 : Text

/-- `volume_count`. -/
def CollectionVolumePlan.volumeCount (plan : CollectionVolumePlan) : Nat :=
  plan.packs.length + plan.rawVolumes.length

/-- The row of a pack in a plan. -/
def packRow (p : PackVolumePlan) : Json :=
  .obj [("id", .str p.volumeId), ("sequence", .nat p.sequence),
    ("kind", .str "pack"), ("plaintext_bytes", .nat p.plaintextBytes),
    ("files", .nat p.members.length),
    ("source_bytes", .nat (p.members.map PackMemberPlan.bytes).sum),
    ("index_sha256", .str p.indexSha256), ("plan_sha256", .str p.planSha256)]

/-- The row of a segment in a plan. -/
def segmentRow (p : RawVolumePlan) : Json :=
  .obj [("id", .str p.volumeId), ("sequence", .nat p.sequence),
    ("kind", .str "segment"), ("source_path", .str p.sourcePath),
    ("file_offset", .nat p.fileOffset), ("plaintext_bytes", .nat p.plaintextBytes),
    ("file_bytes", .nat p.fileBytes), ("file_sha256", .str p.fileSha256)]

/-- `_base_payload`. -/
def basePayload (files : List ArchiveFile) (policy : CollectionVolumePolicy)
    (packs : List PackVolumePlan) (raws : List RawVolumePlan) (tree : CollectionTreeIdentity) :
    Json :=
  .obj [("schema", .str "collection-volume-plan/v1"), ("policy", .obj policy.payload),
    ("tree", .obj [("files", .nat tree.files), ("bytes", .nat tree.bytes),
      ("sha256", .str tree.sha256)]),
    ("files", .arr (files.map ArchiveFile.toJson)),
    ("volumes", .arr (packs.map packRow ++ raws.map segmentRow))]

/-- The packs of the small files, if there are any. -/
def collectionPacks (nfc : Text → Text) (policy : CollectionVolumePolicy)
    (packedFiles : List ArchiveFile) : Py (List PackVolumePlan) :=
  if packedFiles.isEmpty then .ok [] else packVolumes nfc policy packedFiles

/-- The raw volumes of the large files, if there are any. -/
def collectionRawVolumes (nfc : Text → Text) (policy : CollectionVolumePolicy)
    (rawFiles : List ArchiveFile) (startingSequence : Nat) : Py (List RawVolumePlan) :=
  if rawFiles.isEmpty then .ok []
  else planRawVolumes nfc rawFiles startingSequence policy.rawVolumePlaintextBytes

/-- `plan_collection_volumes`. -/
def planCollectionVolumes (nfc : Text → Text) (files : List FileEntry)
    (policy : CollectionVolumePolicy) : Py CollectionVolumePlan := do
  let normalized ← normalizedPlanFiles nfc files
  let packedFiles := normalized.filter fun f => decide (f.bytes < policy.packMemberBytes)
  let rawFiles := normalized.filter fun f => decide (policy.packMemberBytes ≤ f.bytes)
  let packs ← collectionPacks nfc policy packedFiles
  let raws ← collectionRawVolumes nfc policy rawFiles packs.length
  require (packs.map PackVolumePlan.sequence ++ raws.map RawVolumePlan.sequence ==
      range (packs.length + raws.length))
    (.runtimeError "collection volume planner produced non-canonical sequences")
  let tree ← collectionTreeIdentity nfc (normalized.map FileEntry.ofFile)
  return ⟨normalized, policy, packs, raws, tree.sha256,
    sha256Hex (canonicalJsonBytes (basePayload normalized policy packs raws tree))⟩

/-! ## Normalisation -/

section Normalisation

variable {nfc : Text → Text}

/-- A path that has been normalised is not changed by normalising it again. -/
def StablePaths (nfc : Text → Text) (files : List FileEntry) : Prop :=
  ∀ f ∈ files, ∀ path, normalizeRelpath nfc f.path = .ok path → normalizeRelpath nfc path = .ok path

variable {out : List ArchiveFile} {files : List FileEntry} {seen : List Text}

/-- The planner and the validation accept the same files. -/
theorem normalizePlanEntries_iff :
    normalizePlanEntries nfc files seen = .ok out ↔ normalizeEntries nfc files seen = .ok out := by
  induction files generalizing seen out with
  | nil => rfl
  | cons current rest ih =>
    simp only [normalizePlanEntries, normalizeEntries, bind_eq_ok, require_eq_ok, ih, Bool.not_or,
      Bool.and_eq_true, exists_const, and_assoc]

theorem normalizedPlanFiles_iff :
    normalizedPlanFiles nfc files = .ok out ↔ normalizedFiles nfc files = .ok out := by
  simp only [normalizedPlanFiles, normalizedFiles, bind_eq_ok, require_eq_ok,
    normalizePlanEntries_iff]

theorem plannable_of_normalizeEntries (hs : StablePaths nfc files)
    (h : normalizeEntries nfc files seen = .ok out) : ∀ f ∈ out, Plannable nfc f := by
  induction files generalizing seen out with
  | nil =>
    obtain rfl := ok.inj h
    simp
  | cons current rest ih =>
    simp only [normalizeEntries, bind_eq_ok, require_eq_ok, Bool.not_eq_true',
      Bool.or_eq_false_iff, Bool.not_eq_false'] at h
    obtain ⟨path, hpath, -, hres, -, -, -, ⟨-, hsha⟩, tail, htail, h⟩ := h
    rw [← ok.inj h, forall_mem_cons]
    rw [StablePaths, forall_mem_cons] at hs
    exact ⟨⟨hs.1 path hpath, hres, hsha⟩, ih hs.2 htail⟩

theorem plannable_of_normalizedFiles (hs : StablePaths nfc files)
    (h : normalizedFiles nfc files = .ok out) : ∀ f ∈ out, Plannable nfc f := by
  simp only [normalizedFiles, bind_eq_ok] at h
  obtain ⟨entries, hentries, -, -, h⟩ := h
  intro f hf
  rw [← ok.inj h, (sortedBy_perm ArchiveFile.path entries).mem_iff] at hf
  exact plannable_of_normalizeEntries hs hentries f hf

theorem pairwise_of_normalizedFiles (h : normalizedFiles nfc files = .ok out) :
    out.Pairwise fun f g => f.path ≤ g.path := by
  simp only [normalizedFiles, bind_eq_ok] at h
  obtain ⟨entries, -, -, -, h⟩ := h
  rw [← ok.inj h]
  exact pairwise_sortedBy _ _

/-- An entry is accepted as a file. -/
def AcceptedAs (nfc : Text → Text) (entry : FileEntry) (f : ArchiveFile) : Prop :=
  normalizeRelpath nfc entry.path = .ok f.path ∧ reservedArchivePrefix.isPrefixOf f.path = false ∧
    (entry.bytes < 0 || !isSha256 entry.sha256) = false ∧ f.bytes = entry.bytes.toNat ∧
      f.sha256 = entry.sha256

theorem normalizeEntries_eq_ok_iff :
    normalizeEntries nfc files seen = .ok out ↔ Forall₂ (AcceptedAs nfc) files out ∧
      (out.map ArchiveFile.path).Nodup ∧ ∀ f ∈ out, f.path ∉ seen := by
  induction files generalizing seen out with
  | nil =>
    rw [normalizeEntries, ok.injEq, forall₂_nil_left_iff, eq_comm]
    exact (and_iff_left_of_imp (by rintro rfl; simp)).symm
  | cons entry files ih =>
    simp only [normalizeEntries, bind_eq_ok, require_eq_ok, Bool.not_eq_true', ih]
    constructor
    · rintro ⟨path, hpath, -, hres, -, hseen, -, hvalid, rest, ⟨hrest, hnodup, hnew⟩, h⟩
      obtain rfl := ok.inj h
      simp_all [AcceptedAs]
    · rintro ⟨hall, hnodup, hnew⟩
      obtain ⟨⟨path, bytes, sha256⟩, rest, ⟨hpath, hres, hvalid, rfl, rfl⟩, hrest, rfl⟩ :=
        forall₂_cons_left_iff.1 hall
      rw [forall_mem_cons] at hnew
      exact ⟨path, hpath, (), hres, (), by simpa using hnew.1, (), hvalid, rest,
        ⟨hrest, hnodup.of_cons, notMem_seen hnodup hnew.2⟩, rfl⟩

end Normalisation

/-! ## Packs -/

section Packs

variable {nfc : Text → Text} {policy : CollectionVolumePolicy}

/-- Files that can be planned, with distinct paths and in their order. -/
structure PlanOrder (nfc : Text → Text) (files : List ArchiveFile) : Prop where
  plannable : ∀ f ∈ files, Plannable nfc f
  distinct : (files.map ArchiveFile.path).Nodup
  sorted : files.Pairwise fun f g => f.path ≤ g.path

variable {files : List ArchiveFile} {packs : List PackVolumePlan}

theorem PlanOrder.sublist {files' : List ArchiveFile} (h : PlanOrder nfc files)
    (hs : files'.Sublist files) : PlanOrder nfc files' where
  plannable := fun f hf => h.plannable f (hs.subset hf)
  distinct := h.distinct.sublist (hs.map _)
  sorted := h.sorted.sublist hs

/-- A pack keeps such files as they are. -/
theorem PlanOrder.normalizedFiles_eq (h : PlanOrder nfc files) (hne : files ≠ [])
    (hsmall : ∀ f ∈ files, Small policy f) :
    Pack.normalizedFiles nfc files policy.packMemberBytes = .ok files := by
  have hpos : (0 : Int) < policy.packMemberBytes := by
    have := policy.positive.2.2.1
    omega
  have heach : normalizeEach nfc policy.packMemberBytes files [] = .ok files :=
    normalizeEach_ok (fun f hf => (h.plannable f hf).canonical)
      (fun f hf => (h.plannable f hf).unreserved) h.distinct (by simp)
      (fun f hf => Int.ofNat_lt.2 (hsmall f hf)) (fun f hf => (h.plannable f hf).identity)
  simp only [Pack.normalizedFiles, bind_eq_ok, require_eq_ok]
  refine ⟨(), by simpa using hpos, files, heach, (), by simp [hne], ?_⟩
  rw [(sortedBy_eq_self_iff ArchiveFile.path).2 h.sorted]
  rfl

theorem map_members_of_planGroups {maxMemberBytes partPlaintextBytes : Int}
    {groups : List (List ArchiveFile)} {sequence : Nat}
    (hg : ∀ group ∈ groups, Pack.normalizedFiles nfc group maxMemberBytes = .ok group)
    (h : planGroups nfc maxMemberBytes partPlaintextBytes groups sequence = .ok packs) :
    packs.map (fun p => p.members.map PackMemberPlan.file) = groups := by
  induction groups generalizing sequence packs with
  | nil =>
    obtain rfl := ok.inj h
    rfl
  | cons group groups ih =>
    simp only [planGroups, bind_eq_ok] at h
    obtain ⟨plan, hplan, rest, hrest, h⟩ := h
    rw [forall_mem_cons] at hg
    have hmembers := (planPackVolume_laid hplan).normalized
    rw [hg.1] at hmembers
    rw [← ok.inj h, map_cons, ih hg.2 hrest, ← ok.inj hmembers]

/-- The packs of some small files: their members are the greedy groups of the files. -/
theorem packVolumes_groups (ho : PlanOrder nfc files) (hne : files ≠ [])
    (hsmall : ∀ f ∈ files, Small policy f) (h : packVolumes nfc policy files = .ok packs) :
    planGroups nfc policy.packMemberBytes policy.packPartPlaintextBytes
        (groups (packFull policy.packFiles policy.packSourceBytes) files) 0 = .ok packs ∧
      packs.map (fun p => p.members.map PackMemberPlan.file) =
        groups (packFull policy.packFiles policy.packSourceBytes) files := by
  simp only [packVolumes, planPackVolumes, bind_eq_ok, ho.normalizedFiles_eq hne hsmall] at h
  obtain ⟨_, hfiles, _, _, _, _, h⟩ := h
  obtain rfl := ok.inj hfiles
  rw [packLoop_eq] at h
  refine ⟨h, map_members_of_planGroups (fun group hgroup => ?_) h⟩
  have hflat : (groups (packFull policy.packFiles policy.packSourceBytes) files).flatten =
      files := flatten_groups files
  have hsub : group.Sublist files := hflat ▸ sublist_flatten_of_mem hgroup
  exact (ho.sublist hsub).normalizedFiles_eq (ne_nil_of_mem_groups hgroup)
    fun f hf => hsmall f (hsub.subset hf)

theorem collectionPacks_groups (ho : PlanOrder nfc files) (hsmall : ∀ f ∈ files, Small policy f)
    (h : collectionPacks nfc policy files = .ok packs) :
    planGroups nfc policy.packMemberBytes policy.packPartPlaintextBytes
        (groups (packFull policy.packFiles policy.packSourceBytes) files) 0 = .ok packs ∧
      packs.map (fun p => p.members.map PackMemberPlan.file) =
        groups (packFull policy.packFiles policy.packSourceBytes) files := by
  rw [collectionPacks] at h
  split_ifs at h with hempty
  · obtain rfl := ok.inj h
    rw [isEmpty_iff.1 hempty]
    exact ⟨rfl, rfl⟩
  · exact packVolumes_groups ho (by simpa using hempty) hsmall h

/-- A greedy group is within the limits of a pack, or it is one file. -/
theorem limits_of_mem_groups {group : List ArchiveFile}
    (h : group ∈ groups (packFull policy.packFiles policy.packSourceBytes) files) :
    group.length = 1 ∨ group.length ≤ policy.packFiles ∧
      (group.map ArchiveFile.bytes).sum ≤ policy.packSourceBytes := by
  revert h
  refine forall_mem_groups (P := fun group => group.length = 1 ∨
    group.length ≤ policy.packFiles ∧ (group.map ArchiveFile.bytes).sum ≤ policy.packSourceBytes)
    (fun x => .inl rfl) (fun pending x _ _ hopen => .inr ?_) files group
  simp only [packFull, Bool.or_eq_false_iff, decide_eq_false_iff_not] at hopen
  simp only [length_append, length_singleton, map_append, map_singleton, sum_append, sum_singleton]
  omega

end Packs

/-! ## Segments -/

section Segments

variable {nfc : Text → Text} {policy : CollectionVolumePolicy}

variable {files : List ArchiveFile} {raws : List RawVolumePlan} {sequence : Nat}

/-- The raw volumes of some large files are the segments of one file after the other. -/
theorem rawFiles_segmented {seen : List Text} (hl : ∀ f ∈ files, ¬ Small policy f)
    (h : rawFiles policy.rawVolumePlaintextBytes files seen sequence = .ok raws) :
    ∃ blocks, raws = blocks.flatten ∧
      Forall₂ (Segmented policy.rawVolumePlaintextBytes) files blocks := by
  induction files generalizing seen sequence raws with
  | nil =>
    obtain rfl := ok.inj h
    exact ⟨[], rfl, .nil⟩
  | cons f files ih =>
    simp only [rawFiles, bind_eq_ok] at h
    obtain ⟨-, -, -, -, -, -, segments, hsegments, plans, hplans, h⟩ := h
    rw [forall_mem_cons] at hl
    obtain ⟨blocks, rfl, hblocks⟩ := ih hl.2 hplans
    have hpos : 0 < f.bytes := policy.positive.2.2.1.trans (not_lt.1 hl.1)
    refine ⟨segments :: blocks, (ok.inj h).symm, .cons ?_ hblocks⟩
    exact fileSegments_segmented policy.positive.2.2.2.2.1 hpos hsegments

/-- Large files in their order are planned as they are. -/
theorem planRawVolumes_rawFiles (ho : PlanOrder nfc files)
    (h : planRawVolumes nfc files sequence policy.rawVolumePlaintextBytes = .ok raws) :
    rawFiles policy.rawVolumePlaintextBytes files [] sequence = .ok raws := by
  have hnormal : files.mapM (normalizedPath nfc) = .ok files := by
    rw [mapM_eq_ok_iff, forall₂_same]
    intro f hf
    have hc := (ho.plannable f hf).canonical
    rw [Canonical] at hc
    rw [normalizedPath, hc]
    rfl
  simp only [planRawVolumes, hnormal, ok_bind, (sortedBy_eq_self_iff ArchiveFile.path).2 ho.sorted,
    bind_eq_ok] at h
  obtain ⟨-, -, -, -, h⟩ := h
  exact h

theorem collectionRawVolumes_rawFiles (ho : PlanOrder nfc files)
    (h : collectionRawVolumes nfc policy files sequence = .ok raws) :
    rawFiles policy.rawVolumePlaintextBytes files [] sequence = .ok raws := by
  rw [collectionRawVolumes] at h
  split_ifs at h with hempty
  · rw [← ok.inj h, isEmpty_iff.1 hempty]
    rfl
  · exact planRawVolumes_rawFiles ho h

end Segments

/-! ## The plan -/

section Plan

variable {nfc : Text → Text} {policy : CollectionVolumePolicy} {files : List FileEntry}
  {plan : CollectionVolumePlan}

/-- The small files of a plan. -/
def CollectionVolumePlan.smallFiles (plan : CollectionVolumePlan)
    (policy : CollectionVolumePolicy) : List ArchiveFile :=
  plan.files.filter fun f => decide (Small policy f)

/-- The large files of a plan. -/
def CollectionVolumePlan.largeFiles (plan : CollectionVolumePlan)
    (policy : CollectionVolumePolicy) : List ArchiveFile :=
  plan.files.filter fun f => decide (¬ Small policy f)

/-- What a plan places: the packs hold the small files, in order and within the limits of a pack; the
raw volumes are the segments of the large files. -/
structure CollectionVolumePlan.Places (plan : CollectionVolumePlan)
    (policy : CollectionVolumePolicy) : Prop where
  packed : (plan.packs.flatMap fun p => p.members.map PackMemberPlan.file) = plan.smallFiles policy
  limits : ∀ p ∈ plan.packs, p.members.length = 1 ∨ p.members.length ≤ policy.packFiles ∧
    (p.members.map PackMemberPlan.bytes).sum ≤ policy.packSourceBytes
  segmented : ∃ blocks, plan.rawVolumes = blocks.flatten ∧
    Forall₂ (Segmented policy.rawVolumePlaintextBytes) (plan.largeFiles policy) blocks
  sequences : plan.packs.map PackVolumePlan.sequence ++ plan.rawVolumes.map RawVolumePlan.sequence =
    range plan.volumeCount

/-- A plan that is returned, step by step. -/
theorem planCollectionVolumes_inv (hs : StablePaths nfc files)
    (h : planCollectionVolumes nfc files policy = .ok plan) :
    normalizedFiles nfc files = .ok plan.files ∧ PlanOrder nfc plan.files ∧
      planGroups nfc policy.packMemberBytes policy.packPartPlaintextBytes
        (groups (packFull policy.packFiles policy.packSourceBytes)
          (plan.smallFiles policy)) 0 = .ok plan.packs ∧
      plan.packs.map (fun p => p.members.map PackMemberPlan.file) =
        groups (packFull policy.packFiles policy.packSourceBytes) (plan.smallFiles policy) ∧
      rawFiles policy.rawVolumePlaintextBytes (plan.largeFiles policy) [] plan.packs.length =
        .ok plan.rawVolumes ∧
      plan.packs.map PackVolumePlan.sequence ++ plan.rawVolumes.map RawVolumePlan.sequence =
        range plan.volumeCount := by
  simp only [planCollectionVolumes, bind_eq_ok, require_eq_ok, beq_iff_eq] at h
  obtain ⟨normalized, hnorm, packs, hpacks, raws, hraws, -, hseq, tree, -, h⟩ := h
  obtain rfl := ok.inj h
  rw [normalizedPlanFiles_iff] at hnorm
  obtain ⟨-, hdistinct, -⟩ := normalizedFiles_spec hnorm
  have horder : PlanOrder nfc normalized :=
    ⟨plannable_of_normalizedFiles hs hnorm, hdistinct, pairwise_of_normalizedFiles hnorm⟩
  have hlarge : (normalized.filter fun f => decide (policy.packMemberBytes ≤ f.bytes)) =
      normalized.filter fun f => decide (¬ Small policy f) :=
    filter_congr fun f _ => decide_eq_decide.2 not_lt.symm
  rw [hlarge] at hraws
  have hsmall : ∀ f ∈ normalized.filter fun f => decide (Small policy f), Small policy f :=
    fun f hf => of_decide_eq_true (mem_filter.1 hf).2
  obtain ⟨hgroups, hmembers⟩ := collectionPacks_groups (horder.sublist filter_sublist) hsmall hpacks
  exact ⟨hnorm, horder, hgroups, hmembers,
    collectionRawVolumes_rawFiles (horder.sublist filter_sublist) hraws, hseq⟩

theorem planCollectionVolumes_places (hs : StablePaths nfc files)
    (h : planCollectionVolumes nfc files policy = .ok plan) : plan.Places policy := by
  obtain ⟨-, -, -, hmembers, hraws, hsequences⟩ := planCollectionVolumes_inv hs h
  have hlarge : ∀ f ∈ plan.largeFiles policy, ¬ Small policy f :=
    fun f hf => of_decide_eq_true (mem_filter.1 hf).2
  refine ⟨?_, fun p hp => ?_, rawFiles_segmented hlarge hraws, hsequences⟩
  · rw [flatMap_def, hmembers, flatten_groups]
  · have hgroup : p.members.map PackMemberPlan.file ∈
        groups (packFull policy.packFiles policy.packSourceBytes)
          (plan.smallFiles policy) := by
      rw [← hmembers]
      exact mem_map_of_mem hp
    have hlimits := limits_of_mem_groups hgroup
    rw [length_map, map_map] at hlimits
    exact hlimits

/-! ## The validation accepts the plan -/

variable {f : ArchiveFile}

theorem mem_smallFiles : f ∈ plan.smallFiles policy ↔ f ∈ plan.files ∧ Small policy f := by
  rw [CollectionVolumePlan.smallFiles, mem_filter, decide_eq_true_iff]

theorem mem_largeFiles : f ∈ plan.largeFiles policy ↔ f ∈ plan.files ∧ ¬ Small policy f := by
  rw [CollectionVolumePlan.largeFiles, mem_filter, decide_eq_true_iff]

/-- A file is the only one with its path. -/
theorem filter_path_eq {files : List ArchiveFile} (hn : (files.map ArchiveFile.path).Nodup)
    (hf : f ∈ files) : (files.filter fun g => g.path == f.path) = [f] := by
  induction files with
  | nil => cases hf
  | cons g files ih =>
    rw [map_cons, nodup_cons] at hn
    by_cases hg : g.path = f.path
    · have hnone : (files.filter fun g => g.path == f.path) = [] := by
        rw [filter_eq_nil_iff]
        intro k hk he
        exact hn.1 (hg ▸ beq_iff_eq.1 he ▸ mem_map_of_mem hk)
      obtain rfl : f = g := by
        rcases mem_cons.1 hf with hfg | hf
        · exact hfg
        · exact absurd (mem_map_of_mem hf) (hg ▸ hn.1)
      rw [filter_cons_of_pos (by simp), hnone]
    · rw [filter_cons_of_neg (by simpa using hg)]
      refine ih hn.2 ((mem_cons.1 hf).resolve_left ?_)
      rintro rfl
      exact hg rfl

theorem flatMap_members_ofPlan (packs : List PackVolumePlan) :
    (packs.map PackPlacement.ofPlan).flatMap PackPlacement.members =
      (packs.flatMap fun p => p.members.map PackMemberPlan.file).map FileEntry.ofFile := by
  rw [flatMap_map, map_flatMap]
  simp only [map_map]
  rfl

/-- A small file is a member of one pack, a large one of none. -/
theorem membersOf_ofPlan (hn : (plan.files.map ArchiveFile.path).Nodup) (hp : plan.Places policy)
    (hf : f ∈ plan.files) :
    membersOf (plan.packs.map PackPlacement.ofPlan) f =
      if Small policy f then [FileEntry.ofFile f] else [] := by
  have hsub : (plan.smallFiles policy).Sublist plan.files := filter_sublist
  have hmap : membersOf (plan.packs.map PackPlacement.ofPlan) f =
      ((plan.smallFiles policy).filter fun g => g.path == f.path).map FileEntry.ofFile := by
    rw [membersOf, flatMap_members_ofPlan, hp.packed, filter_map]
    rfl
  rw [hmap]
  split_ifs with hsmall
  · rw [filter_path_eq (hn.sublist (hsub.map _)) (mem_smallFiles.2 ⟨hf, hsmall⟩), map_singleton]
  · have hnone : ((plan.smallFiles policy).filter fun g => g.path == f.path) = [] := by
      rw [filter_eq_nil_iff]
      intro g hg he
      obtain rfl := inj_on_of_nodup_map hn (hsub.subset hg) hf (beq_iff_eq.1 he)
      exact hsmall (mem_smallFiles.1 hg).2
    rw [hnone, map_nil]

/-- The segments of a file are those with its path. -/
theorem filter_segments {maxPlaintextBytes : Nat} {files : List ArchiveFile}
    {blocks : List (List RawVolumePlan)} (hn : (files.map ArchiveFile.path).Nodup)
    (hb : Forall₂ (Segmented maxPlaintextBytes) files blocks) (path : Text) :
    (path ∉ files.map ArchiveFile.path →
        (blocks.flatten.filter fun p => p.sourcePath == path) = []) ∧
      ∀ f ∈ files, f.path = path →
        Segmented maxPlaintextBytes f (blocks.flatten.filter fun p => p.sourcePath == path) := by
  induction hb with
  | nil => simp
  | @cons f block files blocks hblock _ ih =>
    rw [map_cons, nodup_cons] at hn
    obtain ⟨hnone, hone⟩ := ih hn.2
    have hpath : ∀ p ∈ block, p.sourcePath = f.path := by
      intro p hp
      rw [hblock.source p hp]
      rfl
    rw [flatten_cons, filter_append, map_cons, mem_cons, not_or]
    by_cases he : f.path = path
    · have hall : (block.filter fun p => p.sourcePath == path) = block := by
        rw [filter_eq_self]
        intro p hp
        rw [hpath p hp, he, beq_self_eq_true]
      rw [hall, hnone (he ▸ hn.1), append_nil]
      refine ⟨fun h => absurd he.symm h.1, fun g hg hgp => ?_⟩
      rcases mem_cons.1 hg with rfl | hg
      · exact hblock
      · exact absurd (mem_map_of_mem hg) (hgp.trans he.symm ▸ hn.1)
    · have hnil : (block.filter fun p => p.sourcePath == path) = [] := by
        rw [filter_eq_nil_iff]
        intro p hp
        rw [hpath p hp]
        simpa using he
      rw [hnil, nil_append]
      refine ⟨fun h => hnone h.2, fun g hg hgp => ?_⟩
      rcases mem_cons.1 hg with rfl | hg
      · exact absurd hgp he
      · exact hone g hg hgp

/-- The raw volumes of a large file are its segments; a small one has none. -/
theorem rawsOf_ofPlan (ho : PlanOrder nfc plan.files) (hp : plan.Places policy)
    (hf : f ∈ plan.files) :
    ∃ block, rawsOf nfc (plan.rawVolumes.map RawPlacement.ofPlan) f =
        block.map RawPlacement.ofPlan ∧
      (Small policy f → block = []) ∧
      (¬ Small policy f → Segmented policy.rawVolumePlaintextBytes f block) := by
  obtain ⟨blocks, hraws, hblocks⟩ := hp.segmented
  have hsub : (plan.largeFiles policy).Sublist plan.files := filter_sublist
  have hfilter : rawsOf nfc (plan.rawVolumes.map RawPlacement.ofPlan) f =
      (plan.rawVolumes.filter fun p => p.sourcePath == f.path).map RawPlacement.ofPlan := by
    rw [rawsOf, filter_map]
    refine congrArg _ (filter_congr fun p hpmem => ?_)
    -- the path of a segment is the path of a file, so it is canonical
    rw [hraws, mem_flatten] at hpmem
    obtain ⟨block, hblock, hpblock⟩ := hpmem
    obtain ⟨g, hg, hsegmented⟩ := forall₂_mem_right hblocks hblock
    have hsource : p.sourcePath = g.path := by
      rw [hsegmented.source p hpblock]
      rfl
    have hc : normalizeRelpath nfc g.path = .ok g.path :=
      (ho.plannable g (hsub.subset hg)).canonical
    change (normalizeRelpath nfc p.sourcePath == .ok f.path) = _
    rw [hsource, hc]
    exact Bool.eq_iff_iff.2 (by simp)
  refine ⟨_, hfilter, fun hsmall => ?_, fun hlarge => ?_⟩
  · rw [hraws]
    refine (filter_segments (ho.distinct.sublist (hsub.map _)) hblocks f.path).1 fun hmem => ?_
    obtain ⟨g, hg, he⟩ := mem_map.1 hmem
    obtain rfl := inj_on_of_nodup_map ho.distinct (hsub.subset hg) hf he
    exact (mem_largeFiles.1 hg).2 hsmall
  · rw [hraws]
    exact (filter_segments (ho.distinct.sublist (hsub.map _)) hblocks f.path).2 f
      (mem_largeFiles.2 ⟨hf, hlarge⟩) rfl

theorem placedOnce_ofPlan (ho : PlanOrder nfc plan.files) (hp : plan.Places policy)
    (hf : f ∈ plan.files) :
    PlacedOnce nfc (plan.packs.map PackPlacement.ofPlan) (plan.rawVolumes.map RawPlacement.ofPlan)
      f := by
  obtain ⟨block, hraws, hsmall, hlarge⟩ := rawsOf_ofPlan ho hp hf
  have hmembers := membersOf_ofPlan ho.distinct hp hf
  by_cases hs : Small policy f
  · refine .inl ⟨?_, ?_⟩
    · rw [hmembers, if_pos hs, length_singleton]
    · rw [hraws, hsmall hs, map_nil]
  · have hblock := hlarge hs
    refine .inr ⟨by rw [hmembers, if_neg hs], ?_⟩
    have hranges : (block.map RawPlacement.ofPlan).map RawPlacement.range =
        block.map RawVolumePlan.range := map_map
    rw [hraws, hranges]
    refine hblock.chain.tilesOnce (by simpa using hblock.nonempty) ?_
    intro r hr
    obtain ⟨p, hpmem, rfl⟩ := mem_map.1 hr
    exact Int.natCast_pos.2 (hblock.within p hpmem).1

theorem known_ofPlan (ho : PlanOrder nfc plan.files) (hp : plan.Places policy) :
    Known nfc plan.files (plan.packs.map PackPlacement.ofPlan)
      (plan.rawVolumes.map RawPlacement.ofPlan) := by
  refine ⟨?_, ?_⟩
  · rw [forall_mem_map]
    intro pack hpack m hm
    obtain ⟨member, hmember, rfl⟩ := mem_map.1 hm
    have hfile : member.file ∈ plan.smallFiles policy := by
      rw [← hp.packed]
      exact mem_flatMap.2 ⟨pack, hpack, mem_map_of_mem hmember⟩
    exact ⟨member.file, (mem_smallFiles.1 hfile).1, rfl, rfl, rfl⟩
  · rw [forall_mem_map]
    intro p hpmem
    obtain ⟨blocks, hraws, hblocks⟩ := hp.segmented
    rw [hraws, mem_flatten] at hpmem
    obtain ⟨block, hblock, hpblock⟩ := hpmem
    obtain ⟨f, hf, hsegmented⟩ := forall₂_mem_right hblocks hblock
    have hfile := (mem_largeFiles.1 hf).1
    have hbounds := hsegmented.chain.bounds (mem_map_of_mem hpblock)
    refine ⟨f, hfile, ?_, ?_, ?_, hbounds⟩
    · rw [hsegmented.source p hpblock]
      exact (ho.plannable f hfile).canonical
    · rw [hsegmented.source p hpblock]
      rfl
    · rw [hsegmented.source p hpblock]
      rfl

/-- Names that spell different numbers are different. -/
theorem nodup_numbered {α : Type} {items : List α} {name : α → Text} {number : α → Nat}
    {stem : Text} (hid : ∀ x ∈ items, name x = stem ++ zeroPadded 16 64 (number x) ∧
      number x < 2 ^ 256) (hn : (items.map number).Nodup) : (items.map name).Nodup := by
  rw [Nodup, pairwise_map] at hn ⊢
  refine hn.imp_of_mem fun {x y} hx hy hne he => hne ?_
  obtain ⟨hxid, hxlt⟩ := hid x hx
  obtain ⟨hyid, hylt⟩ := hid y hy
  exact zeroPadded_inj (by decide) (by decide) (by decide) (by omega) (by omega)
    (append_cancel_left (hxid.symm.trans (he.trans hyid)))

/-- The names of the volumes are different: they spell the kind and the number. -/
theorem nodup_volumeIds_ofPlan (hp : plan.Places policy)
    (hid : ∀ p ∈ plan.packs, p.volumeId = "pack-" ++ zeroPadded 16 64 p.sequence ∧
      p.sequence < 2 ^ 256) :
    (volumeIds (plan.packs.map PackPlacement.ofPlan)
      (plan.rawVolumes.map RawPlacement.ofPlan)).Nodup := by
  obtain ⟨blocks, hraws, hblocks⟩ := hp.segmented
  have hseg : ∀ p ∈ plan.rawVolumes,
      p.volumeId = "segment-" ++ zeroPadded 16 64 p.sequence ∧ p.sequence < 2 ^ 256 := by
    intro p hpmem
    rw [hraws, mem_flatten] at hpmem
    obtain ⟨block, hblock, hpblock⟩ := hpmem
    obtain ⟨f, -, hsegmented⟩ := forall₂_mem_right hblocks hblock
    refine ⟨?_, hsegmented.sequence p hpblock⟩
    rw [hsegmented.source p hpblock]
    rfl
  have hnodup := nodup_range (n := plan.volumeCount)
  rw [← hp.sequences, nodup_append] at hnodup
  obtain ⟨hpacks, hsegments, -⟩ := hnodup
  rw [volumeIds, map_map, map_map, nodup_append]
  refine ⟨?_, ?_, ?_⟩
  · exact nodup_numbered hid hpacks
  · exact nodup_numbered hseg hsegments
  · rintro _ hpmem _ hq rfl
    obtain ⟨p, hpmem, hpid⟩ := mem_map.1 hpmem
    obtain ⟨q, hq, hqid⟩ := mem_map.1 hq
    have hsame : p.volumeId = q.volumeId := hpid.trans hqid.symm
    rw [(hid p hpmem).1, (hseg q hq).1] at hsame
    exact absurd (congrArg head? hsame) (show some 'p' ≠ some 's' by decide)

/-- The plan passes the validation, with the files as it keeps them. -/
theorem validate_ofPlan (hs : StablePaths nfc files)
    (h : planCollectionVolumes nfc files policy = .ok plan) :
    validateCollectionArchivePlan nfc files (plan.packs.map PackPlacement.ofPlan)
      (plan.rawVolumes.map RawPlacement.ofPlan) = .ok plan.files := by
  obtain ⟨hnorm, horder, hgroups, -⟩ := planCollectionVolumes_inv hs h
  have hp := planCollectionVolumes_places hs h
  have hid : ∀ p ∈ plan.packs, p.volumeId = "pack-" ++ zeroPadded 16 64 p.sequence ∧
      p.sequence < 2 ^ 256 := by
    intro p hpmem
    obtain ⟨group, -, number, hplan⟩ := forall₂_mem_right (planGroups_spec hgroups) hpmem
    have hlaid := planPackVolume_laid hplan
    exact ⟨hlaid.volumeId, hlaid.sequence⟩
  rw [validateCollectionArchivePlan_eq_ok_iff]
  refine ⟨hnorm, ?_, nodup_volumeIds_ofPlan hp hid, known_ofPlan horder hp, fun f hf => ?_⟩
  · have hsequences : sequences (plan.packs.map PackPlacement.ofPlan)
        (plan.rawVolumes.map RawPlacement.ofPlan) = (range plan.volumeCount).map Int.ofNat := by
      rw [← hp.sequences, sequences, map_append, map_map, map_map, map_map, map_map]
      rfl
    rw [Contiguous, hsequences, length_map, length_range]
  · exact ((placedOnce_iff f).1 (placedOnce_ofPlan horder hp hf)).1

/-! ## The incremental planner -/

/-- The files in the order of their registration. -/
def orderedFiles (files : List ArchiveFile) : List OrderedArchiveFile :=
  files.mapIdx OrderedArchiveFile.mk

theorem map_file_orderedFiles (files : List ArchiveFile) :
    (orderedFiles files).map OrderedArchiveFile.file = files := by
  apply ext_getElem <;> simp [orderedFiles]

theorem map_order_orderedFiles (files : List ArchiveFile) :
    (orderedFiles files).map OrderedArchiveFile.order = range (orderedFiles files).length := by
  apply ext_getElem <;> simp [orderedFiles]

theorem planContents_ofPlan (hs : StablePaths nfc files)
    (h : planCollectionVolumes nfc files policy = .ok plan) :
    planContents nfc policy ((groups (packFull policy.packFiles policy.packSourceBytes)
        (plan.smallFiles policy)).map .pack ++ (plan.largeFiles policy).map .raw) 0 =
      .ok (plan.packs.map .pack ++ plan.rawVolumes.map .raw) := by
  obtain ⟨-, horder, hgroups, -, hraws, -⟩ := planCollectionVolumes_inv hs h
  have hlarge : PlanOrder nfc (plan.largeFiles policy) := horder.sublist filter_sublist
  have hnew : ∀ f ∈ plan.largeFiles policy, f.path ∉ ([] : List Text) := by simp
  refine planContents_append.2 ⟨_, _, ?_, ?_, rfl⟩
  · rw [planContents_pack, hgroups]
    rfl
  · rw [planContents_raw _ (fun f hf => (hlarge.plannable f hf).unreserved)
      (fun f hf => (hlarge.plannable f hf).identity) hlarge.distinct hnew, length_map,
      Nat.zero_add, hraws]
    rfl

/-- Files of the given sizes, named in path order. -/
def lettered (sizes : List (Char × Nat)) : List FileEntry :=
  sizes.map fun (name, bytes) => ⟨[name], bytes, replicate 64 '0'⟩

-- a path that is not canonical after one normalisation: the pack holds `a`, the plan keeps ` a`
example : ((planCollectionVolumes id [⟨"./ a", 1, replicate 64 '0'⟩]
    narrowPolicy).toOption.elim false fun plan => (validateCollectionArchivePlan id
      [⟨"./ a", 1, replicate 64 '0'⟩] (plan.packs.map PackPlacement.ofPlan)
      []).toOption.isNone) = true := by
  decide +kernel

/-- The planner does not depend on the order of the files. -/
theorem planCollectionVolumes_perm {files' : List FileEntry} (hp : files.Perm files')
    (h : planCollectionVolumes nfc files policy = .ok plan) :
    planCollectionVolumes nfc files' policy = .ok plan ∧
      collectionTreeIdentity nfc files' = collectionTreeIdentity nfc files := by
  have hfiles : ∀ out, normalizedFiles nfc files = .ok out → normalizedFiles nfc files' = .ok out := by
    intro out hout
    simp only [normalizedFiles, bind_eq_ok, require_eq_ok, normalizeEntries_eq_ok_iff] at hout ⊢
    obtain ⟨entries, ⟨hall, hnodup, -⟩, -, hne, hout⟩ := hout
    obtain ⟨entries', hall', hperm⟩ := perm_comp_forall₂ hp.symm hall
    refine ⟨entries', ⟨hall', (hperm.map _).nodup_iff.2 hnodup, by simp⟩, (), ?_, ?_⟩
    · rwa [hperm.isEmpty_eq]
    · rw [← sortedBy_eq_of_perm _ hnodup hperm.symm]
      exact hout
  simp only [planCollectionVolumes, bind_eq_ok, normalizedPlanFiles_iff] at h ⊢
  obtain ⟨normalized, hnormal, h⟩ := h
  refine ⟨⟨normalized, hfiles _ hnormal, h⟩, ?_⟩
  rw [collectionTreeIdentity, collectionTreeIdentity, hnormal, hfiles _ hnormal]

/-- The large file comes first. -/
theorem planCollectionVolumes_perm_two :
    ∃ plan, planCollectionVolumes id (lettered [('b', 10), ('a', 1)]) narrowPolicy = .ok plan := by
  obtain ⟨plan, h, -⟩ := exists_ok_of_elim
    (x := planCollectionVolumes id (lettered [('a', 1), ('b', 10)]) narrowPolicy)
    (p := fun _ => true) (by decide +kernel)
  exact ⟨plan, (planCollectionVolumes_perm (.swap _ _ _) h).1⟩

end Plan

end Riverhog.Manifest
