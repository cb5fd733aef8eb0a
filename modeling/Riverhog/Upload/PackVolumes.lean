import Riverhog.Pack.Returns
import Riverhog.Upload.Planner

/-!
# Filling packs

`plan_pack_volumes` of `riverhog_core.pack_volume`: the files, in path order, are
collected until the next one would exceed the file or byte limit of a pack. The policy
bounds the source bytes of a pack so that they fit the parts that the archive manifest
allows for a volume, but the units of a pack are cut by the bytes of its tar records,
so that headers and padding count as well.
-/

namespace Riverhog.Upload

open Core Protocol Pack List

/-- The pending files leave no room for the next one. -/
def packFull (filesPerVolume sourceBytesPerVolume : Nat) (pending : List ArchiveFile)
    (current : ArchiveFile) : Bool :=
  filesPerVolume ≤ pending.length ||
    sourceBytesPerVolume < (pending.map ArchiveFile.bytes).sum + current.bytes

section Definitions

variable (nfc : Text → Text) (sourceBytesPerVolume filesPerVolume : Nat)
  (maxMemberBytes partPlaintextBytes : Int)

/-- The loop of `plan_pack_volumes`; `sequence` is the number of volumes planned so far. -/
def packLoop : List ArchiveFile → List ArchiveFile → Nat → Py (List PackVolumePlan)
  | [], pending, sequence =>
    if pending.isEmpty then return []
    else do
      let plan ← planPackVolume nfc pending sequence maxMemberBytes partPlaintextBytes
      return [plan]
  | current :: rest, pending, sequence =>
    if !pending.isEmpty && packFull filesPerVolume sourceBytesPerVolume pending current then do
      let plan ← planPackVolume nfc pending sequence maxMemberBytes partPlaintextBytes
      let plans ← packLoop rest [current] (sequence + 1)
      return plan :: plans
    else packLoop rest (pending ++ [current]) sequence

/-- `plan_pack_volumes`. -/
def planPackVolumes (files : List ArchiveFile) : Py (List PackVolumePlan) := do
  let normalized ← normalizedFiles nfc files maxMemberBytes
  require (0 < sourceBytesPerVolume) (.valueError "pack source byte target must be positive")
  require (0 < filesPerVolume) (.valueError "pack file limit must be positive")
  packLoop nfc sourceBytesPerVolume filesPerVolume maxMemberBytes partPlaintextBytes normalized [] 0

/-- The groups of files planned one after the other, numbered from `sequence`. -/
def planGroups : List (List ArchiveFile) → Nat → Py (List PackVolumePlan)
  | [], _ => .ok []
  | group :: groups, sequence => do
    let plan ← planPackVolume nfc group sequence maxMemberBytes partPlaintextBytes
    let plans ← planGroups groups (sequence + 1)
    return plan :: plans

end Definitions

section Groups

variable {nfc : Text → Text} {sourceBytesPerVolume filesPerVolume : Nat}
  {maxMemberBytes partPlaintextBytes : Int}

/-- The loop plans the greedy groups of the files. -/
theorem packLoop_eq (files pending : List ArchiveFile) (sequence : Nat) :
    packLoop nfc sourceBytesPerVolume filesPerVolume maxMemberBytes partPlaintextBytes files pending
        sequence =
      planGroups nfc maxMemberBytes partPlaintextBytes
        (Greedy.groupsFrom (packFull filesPerVolume sourceBytesPerVolume) pending files)
        sequence := by
  induction files generalizing pending sequence with
  | nil =>
    rw [packLoop, Greedy.groupsFrom]
    split_ifs
    · rfl
    · rw [planGroups, planGroups]
      rfl
  | cons current files ih =>
    rw [packLoop, Greedy.groupsFrom]
    split_ifs
    · simp only [planGroups, ih]
    · exact ih _ _

/-- Each planned volume is the plan of a group, and each group has one. -/
theorem planGroups_spec {groups : List (List ArchiveFile)} {sequence : Nat}
    {plans : List PackVolumePlan}
    (h : planGroups nfc maxMemberBytes partPlaintextBytes groups sequence = .ok plans) :
    Forall₂ (fun group plan => ∃ number, planPackVolume nfc group number maxMemberBytes
      partPlaintextBytes = .ok plan) groups plans := by
  induction groups generalizing sequence plans with
  | nil =>
    obtain rfl := Except.ok.inj h
    exact .nil
  | cons group groups ih =>
    simp only [planGroups, bind_eq_ok] at h
    obtain ⟨plan, hplan, rest, hrest, h⟩ := h
    obtain rfl := Except.ok.inj h
    exact .cons ⟨sequence, hplan⟩ (ih hrest)

/-- Files within the limits of a pack fill one. -/
theorem groups_packFull {files : List ArchiveFile} (hne : files ≠ [])
    (hcount : files.length ≤ filesPerVolume)
    (hbytes : (files.map ArchiveFile.bytes).sum ≤ sourceBytesPerVolume) :
    Greedy.groups (packFull filesPerVolume sourceBytesPerVolume) files = [files] := by
  apply Greedy.groups_eq_singleton hne
  rintro pending x rest rfl
  simp only [length_append, length_cons, map_append, map_cons, sum_append,
    sum_cons] at hcount hbytes
  simp only [packFull, Bool.or_eq_false_iff, decide_eq_false_iff_not]
  omega

end Groups

/-! ## Planning returns -/

section Returns

variable {nfc : Text → Text} {maxMemberBytes partPlaintextBytes : Int}

variable {sourceBytesPerVolume filesPerVolume : Nat}

/-- Files within the limits of a pack are planned as one. -/
theorem planPackVolumes_one (hp : 0 < partPlaintextBytes) (ha : partPlaintextBytes % chunkSize = 0)
    (hsource : 0 < sourceBytesPerVolume) {files : List ArchiveFile}
    (h : Packable nfc maxMemberBytes files) (hcount : files.length ≤ filesPerVolume)
    (hbytes : (files.map ArchiveFile.bytes).sum ≤ sourceBytesPerVolume) :
    ∃ plan, planPackVolumes nfc sourceBytesPerVolume filesPerVolume maxMemberBytes
        partPlaintextBytes files = .ok [plan] ∧
      planPackVolume nfc (sortedBy ArchiveFile.path files) 0 maxMemberBytes partPlaintextBytes =
        .ok plan := by
  have hperm := sortedBy_perm ArchiveFile.path files
  have hsorted := h.perm hperm
  obtain ⟨plan, hplan⟩ := hsorted.planPackVolume_ok (show 0 < 2 ^ 256 by decide) hp ha
  have hgroups : Greedy.groups (packFull filesPerVolume sourceBytesPerVolume)
      (sortedBy ArchiveFile.path files) = [sortedBy ArchiveFile.path files] :=
    groups_packFull hsorted.nonempty (hperm.length_eq ▸ hcount)
      ((hperm.map ArchiveFile.bytes).sum_nat ▸ hbytes)
  have hfiles : 0 < filesPerVolume := (length_pos_iff.2 h.nonempty).trans_le hcount
  refine ⟨plan, ?_, hplan⟩
  simp only [planPackVolumes, bind_eq_ok, require_eq_ok]
  refine ⟨_, h.normalizedFiles_eq, (), by simpa using hsource, (), by simpa using hfiles, ?_⟩
  rw [packLoop_eq]
  change planGroups nfc maxMemberBytes partPlaintextBytes (Greedy.groups _ _) 0 = _
  rw [hgroups, planGroups, hplan, planGroups]
  rfl

end Returns

/-! ## The number of units -/

/-- `plan_pack_volumes` under a policy. -/
def packVolumes (nfc : Text → Text) (policy : CollectionVolumePolicy) (files : List ArchiveFile) :
    Py (List PackVolumePlan) :=
  planPackVolumes nfc policy.packSourceBytes policy.packFiles policy.packMemberBytes
    policy.packPartPlaintextBytes files

/-- No pack that the files fill can be cut into as many full units as a volume may have parts, and
something more. -/
def UnitsFit (nfc : Text → Text) (policy : CollectionVolumePolicy) (files : List ArchiveFile) :
    Prop :=
  ∀ normalized, normalizedFiles nfc files policy.packMemberBytes = .ok normalized →
    ∀ group ∈ Greedy.groups (packFull policy.packFiles policy.packSourceBytes) normalized,
    ∀ members, normalizedFiles nfc group policy.packMemberBytes = .ok members →
    ∀ (units : List (List ArchiveFile)) (last : List ArchiveFile), members = units.flatten ++ last →
      last ≠ [] → (∀ unit ∈ units, fillsUnit policy.packPartPlaintextBytes unit = true) →
      units.length < archiveVolumePartsMax

/-- Every planned pack can become a volume exactly when the tar records of its members, not only
their bytes, fit the parts of a volume. -/
theorem units_le_iff_unitsFit {nfc : Text → Text} {policy : CollectionVolumePolicy}
    {files : List ArchiveFile} {packs : List PackVolumePlan}
    (h : packVolumes nfc policy files = .ok packs) :
    (∀ pack ∈ packs, pack.units.length ≤ archiveVolumePartsMax) ↔ UnitsFit nfc policy files := by
  simp only [packVolumes, planPackVolumes, bind_eq_ok] at h
  obtain ⟨normalized, hnorm, _, _, _, _, h⟩ := h
  rw [packLoop_eq] at h
  have hgroups := planGroups_spec h
  have hpart : (0 : Int) < policy.packPartPlaintextBytes := by
    have := policy.positive.2.2.2.1
    omega
  -- one pack and the group it was planned from
  have hone : ∀ group pack, (∃ number, planPackVolume nfc group number policy.packMemberBytes
      policy.packPartPlaintextBytes = .ok pack) →
      (pack.units.length ≤ archiveVolumePartsMax ↔
        ∀ members, normalizedFiles nfc group policy.packMemberBytes = .ok members →
        ∀ (units : List (List ArchiveFile)) (last : List ArchiveFile),
          members = units.flatten ++ last → last ≠ [] →
          (∀ unit ∈ units, fillsUnit policy.packPartPlaintextBytes unit = true) →
          units.length < archiveVolumePartsMax) := by
    rintro group pack ⟨number, hplan⟩
    have hmembers := (planPackVolume_laid hplan).normalized
    rw [length_units_le_iff hpart hplan, hmembers]
    simp
  constructor
  · intro hall normalized' hnorm' group hgroup
    obtain rfl : normalized = normalized' := Except.ok.inj (hnorm.symm.trans hnorm')
    obtain ⟨pack, hpack, hplan⟩ := forall₂_mem_right hgroups.flip hgroup
    exact (hone group pack hplan).1 (hall pack hpack)
  · intro hfit pack hpack
    obtain ⟨group, hgroup, hplan⟩ := forall₂_mem_right hgroups hpack
    exact (hone group pack hplan).2 (hfit normalized hnorm group hgroup)

/-! ## A pack with too many units -/

/-- A policy whose packs have 1022 parts worth of source bytes, the most that it may have. -/
def widePolicy : CollectionVolumePolicy where
  packSourceBytes := 1022 * 65536
  packFiles := 50000
  packMemberBytes := 65025
  packPartPlaintextBytes := 65536
  rawVolumePlaintextBytes := 65536
  rawPartPlaintextBytes := 65536
  positive := by decide
  aligned := by decide
  rawParts := by decide
  packParts := by decide
  files := by decide

/-- A file that fills a unit with its header: 512 and 65024 bytes. -/
def unitFile (n : Nat) : ArchiveFile := ⟨zeroPadded 10 4 n, 65024, replicate 64 'a'⟩

/-- The files `0000` to `1024`. -/
def unitFiles : List ArchiveFile := (range 1025).map unitFile

theorem mem_unitFiles {f : ArchiveFile} : f ∈ unitFiles ↔ ∃ n < 1025, unitFile n = f := by
  simp [unitFiles]

theorem unitFile_digits (n : Nat) : ∀ c ∈ (unitFile n).path, ∃ d < 10, c = Nat.digitChar d :=
  fun _ hc => mem_zeroPadded (by decide) hc

theorem length_unitFile_path {n : Nat} (h : n < 1025) :
    (unitFile n).path.length = 4 ∧ (encodeUtf8 (unitFile n).path).length = 4 := by
  have hlength : (unitFile n).path.length = 4 :=
    length_zeroPadded (by decide) (by decide) (by omega)
  rw [encodeUtf8_digits (unitFile_digits n), length_map]
  exact ⟨hlength, hlength⟩

theorem isRelpath_unitFile {n : Nat} (h : n < 1025) :
    IsRelpath (unitFile n).path [(unitFile n).path] := by
  have hlength := (length_unitFile_path h).1
  have hslash : ∀ d < 10, Nat.digitChar d ≠ '/' ∧ Nat.digitChar d ≠ '\\' := by decide
  have hmem : ∀ c ∈ (unitFile n).path, c ≠ '/' ∧ c ≠ '\\' := by
    intro c hc
    obtain ⟨d, hd, rfl⟩ := unitFile_digits n c hc
    exact hslash d hd
  refine ⟨by simp, ?_, by simp⟩
  rw [forall_mem_singleton]
  refine ⟨?_, ?_, ?_, fun hc => (hmem _ hc).1 rfl, fun hc => (hmem _ hc).2 rfl⟩
  all_goals
    intro he
    rw [he] at hlength
    cases hlength

theorem recordBytes_unitFile {n : Nat} (h : n < 1025) : recordBytes (unitFile n) = 65536 := by
  have hpath : (encodeUtf8 (unitFile n).path).length ≤ 100 := by
    rw [(length_unitFile_path h).2]
    decide
  have hsize : (unitFile n).bytes ≤ tarUstarSizeMax := show 65024 ≤ tarUstarSizeMax by decide
  obtain ⟨header, hheader, hlength⟩ := tarHeader_short hpath hsize
  have hpad : (unitFile n).bytes + tarPadding (unitFile n).bytes = 65024 :=
    show 65024 + tarPadding 65024 = 65024 by decide
  rw [recordBytes_eq hheader, hlength, Nat.add_assoc, hpad, tarBlockSize]

theorem fillsUnit_unitFile {n : Nat} (h : n < 1025) : fillsUnit 65536 [unitFile n] = true := by
  rw [fillsUnit, map_singleton, sum_singleton, recordBytes_unitFile h]
  rfl

theorem packable_unitFiles : Packable id widePolicy.packMemberBytes unitFiles where
  nonempty := by simp [unitFiles]
  count := by
    rw [unitFiles, length_map, length_range]
    decide
  canonical f hf := by
    obtain ⟨n, hn, rfl⟩ := mem_unitFiles.1 hf
    have hspace : ∀ d < 10, isSpace (Nat.digitChar d) = false := by decide
    refine (isRelpath_unitFile hn).normalizeRelpath_eq (strip_eq_self fun c hc => ?_) rfl
    obtain ⟨d, hd, rfl⟩ := unitFile_digits n c hc
    exact hspace d hd
  unreserved f hf := by
    obtain ⟨n, hn, rfl⟩ := mem_unitFiles.1 hf
    rw [Bool.eq_false_iff, Ne, isPrefixOf_iff_prefix]
    intro hstem
    have hle := hstem.length_le
    rw [(length_unitFile_path hn).1] at hle
    exact absurd hle (by decide)
  distinct := by
    rw [unitFiles, map_map]
    refine Nodup.map_on ?_ nodup_range
    intro m _ n _ he
    have hm : Nat.ofDigitChars 10 (zeroPadded 10 4 m) 0 = m :=
      ofDigitChars_zeroPadded (by decide) (by decide) 4 m
    have hn : Nat.ofDigitChars 10 (zeroPadded 10 4 n) 0 = n :=
      ofDigitChars_zeroPadded (by decide) (by decide) 4 n
    rw [← hm, ← hn]
    exact congrArg (fun t => Nat.ofDigitChars 10 t 0) he
  small f hf := by
    obtain ⟨n, -, rfl⟩ := mem_unitFiles.1 hf
    exact show ((65024 : Nat) : Int) < widePolicy.packMemberBytes by decide
  identity f hf := by
    obtain ⟨n, -, rfl⟩ := mem_unitFiles.1 hf
    exact show isSha256 (replicate 64 'a') = true by decide
  pathBytes f hf := by
    obtain ⟨n, hn, rfl⟩ := mem_unitFiles.1 hf
    rw [(length_unitFile_path hn).2]
    decide
  bytes f hf := by
    obtain ⟨n, -, rfl⟩ := mem_unitFiles.1 hf
    exact show 65024 < 2 ^ 64 by decide

/-- The files are within the limits of one pack. -/
theorem packVolumes_unitFiles : ∃ plan, packVolumes id widePolicy unitFiles = .ok [plan] ∧
    planPackVolume id (sortedBy ArchiveFile.path unitFiles) 0 widePolicy.packMemberBytes
      widePolicy.packPartPlaintextBytes = .ok plan := by
  have hbytes : (unitFiles.map ArchiveFile.bytes).sum ≤ widePolicy.packSourceBytes := by
    have hconst : unitFiles.map ArchiveFile.bytes = replicate 1025 65024 := by
      rw [unitFiles, map_map]
      exact map_const'.trans (by rw [length_range])
    rw [hconst, sum_replicate_nat]
    decide
  have hcount : unitFiles.length ≤ widePolicy.packFiles := by
    rw [unitFiles, length_map, length_range]
    decide
  exact planPackVolumes_one (by decide) (by decide) (by decide) packable_unitFiles hcount hbytes

theorem units_le_iff_unitsFit_crowded : ∃ packs, packVolumes id widePolicy unitFiles = .ok packs ∧
    ((∀ pack ∈ packs, pack.units.length ≤ archiveVolumePartsMax) ↔
      UnitsFit id widePolicy unitFiles) := by
  obtain ⟨plan, hplans, -⟩ := packVolumes_unitFiles
  exact ⟨[plan], hplans, units_le_iff_unitsFit hplans⟩

/-- 1025 files of 65024 bytes are within the limits of a pack of 1022 parts of 65536 bytes, yet each
of them fills a unit with its header. -/
theorem packVolumes_too_many_units : ∃ packs, packVolumes id widePolicy unitFiles = .ok packs ∧
    ∃ pack ∈ packs, archiveVolumePartsMax < pack.units.length := by
  have hpart : (0 : Int) < widePolicy.packPartPlaintextBytes := by decide
  obtain ⟨plan, hplans, hplan⟩ := packVolumes_unitFiles
  refine ⟨[plan], hplans, plan, mem_singleton_self plan, ?_⟩
  -- the members in path order, whatever that order is: each of them is a full unit
  have hmembers := (planPackVolume_laid hplan).normalized
  have hperm := sortedBy_perm ArchiveFile.path unitFiles
  have hsorted := packable_unitFiles.perm hperm
  rw [hsorted.normalizedFiles_eq] at hmembers
  have hfiles : (plan.members.map PackMemberPlan.file).Perm unitFiles := by
    rw [← Except.ok.inj hmembers]
    exact (sortedBy_perm _ _).trans hperm
  rw [← not_le, length_units_le_iff hpart hplan]
  intro hfit
  set members := plan.members.map PackMemberPlan.file with hdef
  have hne : members ≠ [] := by
    intro he
    rw [he, nil_perm] at hfiles
    exact packable_unitFiles.nonempty hfiles
  have hlength : members.length = 1025 := by
    rw [hfiles.length_eq, unitFiles, length_map, length_range]
  have hsplit : members = (members.dropLast.map fun f => [f]).flatten ++ [members.getLast hne] := by
    rw [← flatMap_def, flatMap_singleton', dropLast_append_getLast]
  have hlt := hfit _ _ hsplit (cons_ne_nil _ _) (by
    rw [forall_mem_map]
    intro f hf
    obtain ⟨n, hn, rfl⟩ := mem_unitFiles.1 (hfiles.mem_iff.1 (dropLast_subset _ hf))
    exact fillsUnit_unitFile hn)
  rw [length_map, length_dropLast, hlength, archiveVolumePartsMax] at hlt
  omega

end Riverhog.Upload
