import Riverhog.Recovery.PackNames

/-!
# What recovering a pack does

Recovery of a pack that the server rendered succeeds exactly when its files can stand
in one directory tree. The checks against the archive and its index all pass; the
first part of this module follows the writes, the second the checks.
-/

namespace Riverhog.Recovery

open Core Pack Protocol FileTree List Except

/-! ## Writing one file -/

theorem osCall_eq_ok {α : Type} {x : Except OsError α} {a : α} : osCall x = .ok a ↔ x = .ok a := by
  cases x <;> simp [osCall]

variable {file : ArchiveFile} {done : List (List Text × Bytes)} {parts : List Text}
  {staging : Staging}

/-- No component of a path without NUL holds one. -/
theorem nul_not_mem_parts {path : Text} (hp : IsRelpath path parts) (hn : '\x00' ∉ path) :
    ∀ part ∈ parts, '\x00' ∉ part := by
  intro part hpart hc
  rw [hp.join] at hn
  exact hn ((infix_joinWith hpart).subset hc)

/-- A new file is written when its path clashes with no other. -/
theorem writeDestination_ok {content : Bytes} (hp : IsRelpath file.path parts)
    (hn : '\x00' ∉ file.path) (hlen : content.length = file.bytes)
    (hsha : sha256Hex content = file.sha256) (hh : staging.Holds done)
    (hc : ∀ d ∈ done, ¬ FileTree.Clash d.1 parts) :
    ∃ t, writeDestination staging parts file (.ok content) = .ok t ∧
      t.Holds (done ++ [(parts, content)]) := by
  obtain ⟨t, ht, hholds⟩ := hh.writeNew_ok hp.nonempty hc []
  rw [writeNew] at ht
  cases hu : staging.makeDirs parts.dropLast with
  | error e =>
    rw [hu] at ht
    cases ht
  | ok u =>
    rw [hu] at ht
    have hparts : (!parts.dropLast.any (·.contains '\x00')) = true := by
      have hnone := nul_not_mem_parts hp hn
      rw [Bool.not_eq_true', any_eq_false]
      intro part hpart
      simpa using hnone part (mem_of_mem_dropLast hpart)
    have hpath : (!file.path.contains '\x00') = true := by simpa using hn
    have hcheck : (content.length == file.bytes && sha256Hex content == file.sha256) = true := by
      rw [hlen, hsha, BEq.rfl, BEq.rfl]
      rfl
    refine ⟨t.write parts content, ?_, hholds.write ?_ content⟩
    · rw [writeDestination, hparts, require_true, ok_bind, hu, osCall, ok_bind, hpath, require_true,
        ok_bind]
      dsimp only at ht
      rw [ht, osCall, ok_bind, ok_bind]
      rw [hcheck, require_true, ok_bind]
      rfl
    · rintro d hd rfl
      exact hc d hd (.inl (prefix_refl _))

/-- A file that was written had a path without NUL that clashed with no other. -/
theorem writeDestination_inv {t : Staging} {read : Rec Bytes} (hp : IsRelpath file.path parts)
    (hh : staging.Holds done) (h : writeDestination staging parts file read = .ok t) :
    '\x00' ∉ file.path ∧ (∀ d ∈ done, ¬ FileTree.Clash d.1 parts) ∧
      ∃ content, t.Holds (done ++ [(parts, content)]) := by
  simp only [writeDestination, bind_eq_ok, require_eq_ok, osCall_eq_ok] at h
  obtain ⟨-, -, u, hu, -, hpath, v, hv, content, -, -, -, h⟩ := h
  obtain rfl : v.write parts content = t := ok.inj h
  have hnew : staging.writeNew parts [] = .ok v := by
    rw [writeNew, hu]
    exact hv
  have hc : ∀ d ∈ done, ¬ FileTree.Clash d.1 parts := by
    intro d hd hclash
    obtain ⟨e, he⟩ := hh.writeNew_error hd hclash []
    rw [hnew] at he
    cases he
  obtain ⟨v', hv', hholds⟩ := hh.writeNew_ok hp.nonempty hc []
  rw [hnew] at hv'
  rw [← ok.inj hv'] at hholds
  refine ⟨by simpa using hpath, hc, content, hholds.write ?_ content⟩
  rintro d hd rfl
  exact hc d hd (.inl (prefix_refl _))

/-- Nothing stands at a path that clashes with no file. -/
theorem clearDestination_ok (file : ArchiveFile) (hne : parts ≠ []) (hh : staging.Holds done)
    (hc : ∀ d ∈ done, ¬ FileTree.Clash d.1 parts) (prior : Option Nat) (sequence : Nat) :
    clearDestination staging parts file prior sequence = .ok (some staging) := by
  have hnone : staging.pathExists parts = false := by
    rw [pathExists, hh.node_eq_none hne hc]
    rfl
  rw [clearDestination, hnone, Bool.and_false, if_neg Bool.false_ne_true]
  rfl

/-- A destination that holds no file is either free or a directory, which is not removed. -/
theorem clearDestination_inv (hh : staging.Holds done) (hnew : ∀ d ∈ done, d.1 ≠ parts)
    {prior : Option Nat} {sequence : Nat} {cleared : Option Staging}
    (h : clearDestination staging parts file prior sequence = .ok cleared) :
    cleared = some staging := by
  rw [clearDestination] at h
  by_cases he : (!file.path.contains '\x00' && staging.pathExists parts) = true
  · rw [if_pos he, bind_eq_ok] at h
    obtain ⟨-, -, h⟩ := h
    rw [Bool.and_eq_true, pathExists] at he
    obtain ⟨n, hn⟩ := Option.isSome_iff_exists.1 he.2
    cases n with
    | dir =>
      have hv : fileVerifies staging parts file = false := by rw [fileVerifies, hn]
      rw [hv, if_neg Bool.false_ne_true, bind_eq_ok] at h
      obtain ⟨u, hu, -⟩ := h
      have hfile : ¬ staging.isFile parts = true := by
        rw [isFile, hn]
        exact Bool.false_ne_true
      rw [osCall_eq_ok, unlink, dif_neg hfile, if_pos (isDir_iff.2 hn)] at hu
      cases hu
    | file c => exact absurd rfl (hnew _ ((hh.file parts c).1 hn))
  · rw [if_neg he] at h
    exact (ok.inj h).symm

section Files

variable {archive : Bytes} {byName : List (Text × Tarfile.TarInfo)} {sequence : Nat}
  {recorded : Text → Option Nat}

variable (archive byName) in
/-- The archive holds a member that agrees with the index and reads as `content`. -/
structure InArchive (f : PackFileIdentity) (content : Bytes) : Prop where
  member : ∃ info, lookupName byName f.path = some info ∧
    (isfile info && info.size == f.bytes && info.offset == f.headerOffset &&
      info.offsetData == f.dataOffset) = true ∧ extract archive info = .ok content
  length : content.length = f.bytes
  sha256 : sha256Hex content = f.sha256
  relpath : IsRelpath f.path (pathParts f.path)

/-- One turn of the loop: the file is written when its path clashes with no other. -/
theorem recoverFile_ok {f : PackFileIdentity} {content : Bytes} {staging : Staging}
    {done : List (List Text × Bytes)} (ha : InArchive archive byName f content)
    (hn : '\x00' ∉ f.path) (hh : staging.Holds done)
    (hc : ∀ d ∈ done, ¬ FileTree.Clash d.1 (pathParts f.path)) :
    ∃ t, recoverFile archive byName sequence recorded f staging = .ok t ∧
      t.Holds (done ++ [(pathParts f.path, content)]) := by
  obtain ⟨info, hinfo, hmatch, hread⟩ := ha.member
  have hp : IsRelpath (ArchiveFile.mk f.path f.bytes f.sha256).path (pathParts f.path) := ha.relpath
  obtain ⟨t, ht, hholds⟩ := writeDestination_ok hp hn ha.length ha.sha256 hh hc
  refine ⟨t, ?_, hholds⟩
  rw [recoverFile, hinfo]
  dsimp only
  rw [hmatch, require_true, ok_bind, normalizeRelpath_of_isRelpath ha.relpath, ok_bind,
    clearDestination_ok _ ha.relpath.nonempty hh hc, ok_bind]
  dsimp only
  rw [hread, ht]

/-- One turn of the loop, backwards. -/
theorem recoverFile_inv {f : PackFileIdentity} {parts : List Text} {staging t : Staging}
    {done : List (List Text × Bytes)}
    (h : recoverFile archive byName sequence recorded f staging = .ok t)
    (hp : IsRelpath f.path parts) (hh : staging.Holds done) (hnew : ∀ d ∈ done, d.1 ≠ parts) :
    '\x00' ∉ f.path ∧ (∀ d ∈ done, ¬ FileTree.Clash d.1 parts) ∧
      ∃ content, t.Holds (done ++ [(parts, content)]) := by
  rw [recoverFile] at h
  cases hinfo : lookupName byName f.path with
  | none =>
    rw [hinfo] at h
    cases h
  | some info =>
    rw [hinfo] at h
    simp only [bind_eq_ok] at h
    obtain ⟨-, -, relative, hrel, cleared, hcleared, h⟩ := h
    rw [normalizeRelpath_of_isRelpath hp] at hrel
    obtain rfl := ok.inj hrel
    rw [pathParts_of_isRelpath hp] at hcleared h
    rw [clearDestination_inv hh hnew hcleared] at h
    have hp' : IsRelpath (ArchiveFile.mk f.path f.bytes f.sha256).path parts := hp
    exact writeDestination_inv hp' hh h

/-- The loop writes files that clash neither with those before them nor with each other. -/
theorem recoverFiles_ok (contents : Text → Bytes) {fs : List PackFileIdentity} {staging : Staging}
    {done : List (List Text × Bytes)}
    (ha : ∀ f ∈ fs, InArchive archive byName f (contents f.path)) (hn : ∀ f ∈ fs, '\x00' ∉ f.path)
    (hh : staging.Holds done) (hc : ∀ f ∈ fs, ∀ d ∈ done, ¬ FileTree.Clash d.1 (pathParts f.path))
    (hpair : fs.Pairwise fun f g => ¬ FileTree.Clash (pathParts f.path) (pathParts g.path)) :
    ∃ t, recoverFiles archive byName sequence recorded fs staging = .ok t ∧
      t.Holds (done ++ fs.map fun f => (pathParts f.path, contents f.path)) := by
  induction fs generalizing staging done with
  | nil => exact ⟨staging, rfl, by simpa using hh⟩
  | cons f fs ih =>
    rw [forall_mem_cons] at ha hn hc
    rw [pairwise_cons] at hpair
    obtain ⟨u, hu, hholds⟩ := @recoverFile_ok archive byName sequence recorded f _ _ _ ha.1 hn.1 hh hc.1
    have hc' : ∀ g ∈ fs, ∀ d ∈ done ++ [(pathParts f.path, contents f.path)],
        ¬ FileTree.Clash d.1 (pathParts g.path) := by
      intro g hg d hd
      rcases mem_append.1 hd with hd | hd
      · exact hc.2 g hg d hd
      · rw [mem_singleton.1 hd]
        exact hpair.1 g hg
    obtain ⟨t, ht, hfinal⟩ := ih ha.2 hn.2 hholds hc' hpair.2
    refine ⟨t, ?_, ?_⟩
    · rw [recoverFiles, hu]
      exact ht
    · rwa [map_cons, append_cons]

/-- When the loop writes every file, the files clash with nothing. -/
theorem recoverFiles_inv {fs : List PackFileIdentity} {staging t : Staging}
    {done : List (List Text × Bytes)}
    (h : recoverFiles archive byName sequence recorded fs staging = .ok t)
    (hp : ∀ f ∈ fs, IsRelpath f.path (pathParts f.path)) (hh : staging.Holds done)
    (hnew : ∀ f ∈ fs, ∀ d ∈ done, d.1 ≠ pathParts f.path)
    (hnodup : fs.Pairwise fun f g => pathParts f.path ≠ pathParts g.path) :
    (∀ f ∈ fs, '\x00' ∉ f.path) ∧ (∀ f ∈ fs, ∀ d ∈ done, ¬ FileTree.Clash d.1 (pathParts f.path)) ∧
      fs.Pairwise fun f g => ¬ FileTree.Clash (pathParts f.path) (pathParts g.path) := by
  induction fs generalizing staging done with
  | nil => simp
  | cons f fs ih =>
    rw [recoverFiles, bind_eq_ok] at h
    obtain ⟨u, hu, h⟩ := h
    rw [forall_mem_cons] at hp hnew
    rw [pairwise_cons] at hnodup
    obtain ⟨hn, hc, content, hholds⟩ := recoverFile_inv hu hp.1 hh hnew.1
    have hnew' : ∀ g ∈ fs, ∀ d ∈ done ++ [(pathParts f.path, content)], d.1 ≠ pathParts g.path := by
      intro g hg d hd
      rcases mem_append.1 hd with hd | hd
      · exact hnew.2 g hg d hd
      · rw [mem_singleton.1 hd]
        exact hnodup.1 g hg
    obtain ⟨hn', hc', hpair⟩ := ih h hp.2 hholds hnew' hnodup.2
    refine ⟨forall_mem_cons.2 ⟨hn, hn'⟩, forall_mem_cons.2 ⟨hc, ?_⟩, pairwise_cons.2 ⟨?_, hpair⟩⟩
    · intro g hg d hd
      exact hc' g hg d (mem_append_left _ hd)
    · intro g hg
      exact hc' g hg _ (mem_append_right _ (mem_singleton_self _))

end Files

/-! ## Checking the archive -/

/-- A member reads as its content. -/
theorem extract_placed {ps : List Piece} {m : PlacedMember} (hm : m ∈ piecesPlaced 0 ps)
    (rest : Bytes) : extract (piecesBytes ps ++ rest) (tarfileInfo m) = .ok m.content := by
  have hs : slice (piecesBytes ps ++ rest) (tarfileInfo m).offsetData (tarfileInfo m).size.toNat =
      m.content := slice_piecesPlaced [] ps rest m hm
  have hsize : (m.content.length : Int) = (tarfileInfo m).size := rfl
  rw [extract, hs, if_pos hsize]

theorem verifyPaddingMembers_ok {archive : Bytes} {byName : List (Text × Tarfile.TarInfo)}
    {names : List Text} (h : ∀ name ∈ names, ∃ info, lookupName byName name = some info ∧
      verifyPaddingMember archive info name = .ok ()) :
    verifyPaddingMembers archive byName names = .ok () := by
  induction names with
  | nil => rfl
  | cons name names ih =>
    rw [forall_mem_cons] at h
    obtain ⟨⟨info, hinfo, hv⟩, hrest⟩ := h
    rw [verifyPaddingMembers, hinfo]
    dsimp only
    rw [hv, ok_bind, ih hrest]

/-- A member of zeros under a padding name is accepted. -/
theorem verifyPaddingMember_ok {ps : List Piece} {m : PlacedMember} (hm : m ∈ piecesPlaced 0 ps)
    (rest : Bytes) (hname : isPaddingPath m.path = true) {payloadBytes : Nat}
    (hc : m.content = zeros payloadBytes) (hlt : payloadBytes < chunkSize) :
    verifyPaddingMember (piecesBytes ps ++ rest) (tarfileInfo m) m.path = .ok () := by
  have hsize : decide ((tarfileInfo m).size < 64 * 1024) = true := by
    have hlen : (tarfileInfo m).size = payloadBytes := by
      rw [tarfileInfo, hc, length_zeros]
    have hchunk : chunkSize = 64 * 1024 := rfl
    rw [decide_eq_true_iff, hlen]
    omega
  have hzero : m.content.all (· == 0) = true := by
    rw [hc, all_eq_true]
    intro b hb
    rw [eq_of_mem_replicate hb]
    rfl
  rw [verifyPaddingMember, hname, hsize, extract_placed hm]
  exact congrArg (require · _) hzero

section Whole

variable {nfc : Text → Text} {files : List ArchiveFile} {maxMemberBytes : Int}
  {plan : PackVolumePlan} {readSourceChunks : Text → List Bytes}

/-- The table of names of an archive whose names are its paths. -/
def pathTable (placed : List PlacedMember) : List (Text × Tarfile.TarInfo) :=
  placed.map fun m => (m.path, tarfileInfo m)

theorem map_fst_pathTable (placed : List PlacedMember) :
    (pathTable placed).map Prod.fst = placed.map PlacedMember.path := by
  rw [pathTable, map_map]
  rfl

theorem lookupName_pathTable {placed : List PlacedMember} {m : PlacedMember} (hm : m ∈ placed)
    (hnodup : (placed.map PlacedMember.path).Nodup) :
    lookupName (pathTable placed) m.path = some (tarfileInfo m) := by
  refine lookupName_of_mem ?_ (mem_map.2 ⟨m, hm, rfl⟩)
  rwa [map_fst_pathTable]

variable {ps : List Piece} {m : PackMemberPlan} {index : PlacedMember}

/-- Every member of the plan is placed. -/
theorem placed_mem (hunits : plan.units.flatMap (unitMembers plan.members) = plan.members)
    (hm : m ∈ plan.members) :
    m.placed readSourceChunks ∈ plan.units.flatMap (unitPlaced plan.members readSourceChunks) := by
  rw [← hunits] at hm
  obtain ⟨u, hu, hmu⟩ := mem_flatMap.1 hm
  exact mem_flatMap.2 ⟨u, hu, mem_append_left _ (mem_map_of_mem hmu)⟩

variable (h : PlanLaid nfc files maxMemberBytes plan)
include h

/-- Only the padding members and the index have reserved names. -/
theorem isReservedName_member (hm : m ∈ plan.members) :
    isReservedName m.path = false := by
  obtain ⟨-, -, hres⟩ := goodRow_plan h m hm
  have hno : ¬ reservedArchivePrefix <+: m.path := by
    rw [← isPrefixOf_iff_prefix, hres]
    exact Bool.false_ne_true
  have hpadding : reservedArchivePrefix <+: packPaddingPrefix := by decide
  rw [isReservedName, Bool.or_eq_false_iff, beq_eq_false_iff_ne]
  constructor
  · intro he
    exact hno (he ▸ by decide)
  · rw [← Bool.not_eq_true, isPrefixOf_iff_prefix]
    intro hpre
    exact hno (hpadding.trans hpre)

/-- A file of the plan is in the archive. -/
theorem inArchive_member (hm : SourcesMatch plan readSourceChunks)
    (hunits : plan.units.flatMap (unitMembers plan.members) = plan.members)
    (hps : piecesPlaced 0 ps =
      plan.units.flatMap (unitPlaced plan.members readSourceChunks) ++ [index])
    (hnodup : ((piecesPlaced 0 ps).map PlacedMember.path).Nodup) (hmem : m ∈ plan.members) :
    InArchive (piecesBytes ps ++ zeros (tarBlockSize * 2)) (pathTable (piecesPlaced 0 ps))
      (identity m) (readSourceChunks m.path).flatten := by
  obtain ⟨hlen, hsha⟩ := hm m hmem
  have hplaced : m.placed readSourceChunks ∈ piecesPlaced 0 ps := by
    rw [hps]
    exact mem_append_left _ (placed_mem hunits hmem)
  refine ⟨⟨tarfileInfo (m.placed readSourceChunks), lookupName_pathTable hplaced hnodup, ?_,
    extract_placed hplaced _⟩, hlen, hsha, isRelpath_member h hmem⟩
  simp [isfile, tarfileInfo, PackMemberPlan.placed, identity, hlen]

/-- Only the index has the name of the index, so recovery finds the planned index. -/
theorem recoverPack_inv {placed : List PlacedMember}
    (hps : piecesPlaced 0 ps = placed ++ [index]) (hpath : index.path = packIndexPath)
    (hcontent : index.content = plan.indexBytes) {recorded : Text → Option Nat}
    {staging tree : Staging} {out : List ArchiveFile}
    (hr : recoverPack (piecesBytes ps ++ zeros (tarBlockSize * 2)) (planVolume plan) recorded
      staging = .ok (out, tree)) :
    ∃ byName, recoverFiles (piecesBytes ps ++ zeros (tarBlockSize * 2)) byName plan.sequence
      recorded (plan.members.map identity) staging = .ok tree := by
  simp only [recoverPack, getmembers_pieces, tarCall, ok_bind, bind_eq_ok] at hr
  obtain ⟨byName, hbyName, hr⟩ := hr
  obtain ⟨hnodup, -, hall⟩ := membersByName_inv hbyName nodup_nil
  have hmem : index ∈ piecesPlaced 0 ps := by
    rw [hps]
    exact mem_append_right _ (mem_singleton_self _)
  have hnamed : NamedByPath index :=
    namedByPath (hpath ▸ isRelpath_packIndexPath) (hpath ▸ by decide)
  obtain ⟨text, name, htext, hname, hin⟩ := hall _ (mem_map_of_mem hmem)
  rw [hnamed.1] at htext
  obtain rfl := ok.inj htext
  rw [hnamed.2] at hname
  obtain rfl := ok.inj hname
  have hlookup : lookupName byName packIndexPath = some (tarfileInfo index) := by
    rw [← hpath]
    exact lookupName_of_mem hnodup hin
  have hlast : ((piecesPlaced 0 ps).map tarfileInfo).getLast? = some (tarfileInfo index) := by
    rw [hps, map_append, map_singleton, getLast?_append]
    rfl
  rw [hlookup, hlast] at hr
  simp only [bind_eq_ok, extract_placed hmem, hcontent] at hr
  obtain ⟨_, _, _, _, indexBytes, hindex, _, _, parsed, hparsed, _, _, _, _, tree', htree, hout⟩ := hr
  obtain rfl := ok.inj hindex
  rw [parsePackIndex_plan h] at hparsed
  obtain rfl := ok.inj hparsed
  obtain ⟨-, rfl⟩ := Prod.ext_iff.1 (ok.inj hout)
  exact ⟨byName, htree⟩

/-- The names of the archive are those of the index, besides the reserved ones. -/
theorem names_match (hunits : plan.units.flatMap (unitMembers plan.members) = plan.members)
    {index : PlacedMember} (hpath : index.path = packIndexPath) :
    (((pathTable (plan.units.flatMap (unitPlaced plan.members readSourceChunks) ++ [index])).all
      fun e => (plan.members.map identity).any (·.path == e.1) || isReservedName e.1) &&
      (plan.members.map identity).all fun f => (pathTable (plan.units.flatMap
        (unitPlaced plan.members readSourceChunks) ++ [index])).any (·.1 == f.path)) = true := by
  rw [Bool.and_eq_true, pathTable, all_map, all_map, all_eq_true, all_eq_true]
  constructor
  · intro placed hp
    rw [Function.comp_apply, Bool.or_eq_true]
    rcases mem_append.1 hp with hp | hp
    · rcases h.placed_cases hp with ⟨m, hm, rfl⟩ | ⟨u, -, -, -, -, hpadding, -⟩
      · exact .inl (any_eq_true.2 ⟨identity m, mem_map_of_mem hm, BEq.rfl⟩)
      · refine .inr ?_
        rw [hpadding, isReservedName, paddingPath, append_assoc,
          isPrefixOf_iff_prefix.2 (prefix_append _ _), Bool.or_true]
    · refine .inr ?_
      have hindex : isReservedName packIndexPath = true := by decide
      rwa [mem_singleton.1 hp, hpath]
  · intro m hm
    rw [Function.comp_apply, any_map, any_eq_true]
    exact ⟨m.placed readSourceChunks, mem_append_left _ (placed_mem hunits hm), BEq.rfl⟩

/-- The members under reserved names, besides the index, are zero-filled padding. -/
theorem padding_verifies (hps : piecesPlaced 0 ps =
      plan.units.flatMap (unitPlaced plan.members readSourceChunks) ++ [index])
    (hpath : index.path = packIndexPath)
    (hnodup : ((piecesPlaced 0 ps).map PlacedMember.path).Nodup) :
    verifyPaddingMembers (piecesBytes ps ++ zeros (tarBlockSize * 2))
      (pathTable (piecesPlaced 0 ps)) (sortedBy id (((pathTable (piecesPlaced 0 ps)).map
        Prod.fst).filter fun name => isReservedName name && name != packIndexPath)) = .ok () := by
  apply verifyPaddingMembers_ok
  intro name hname
  rw [(sortedBy_perm id _).mem_iff, map_fst_pathTable, mem_filter, Bool.and_eq_true,
    bne_iff_ne] at hname
  obtain ⟨hmem, hreserved, hne⟩ := hname
  obtain ⟨placed, hplaced, rfl⟩ := mem_map.1 hmem
  refine ⟨_, lookupName_pathTable hplaced hnodup, ?_⟩
  have hcases := hplaced
  rw [hps, mem_append, mem_singleton] at hcases
  rcases hcases with hp | rfl
  · rcases h.placed_cases hp with ⟨m, hm, rfl⟩ | ⟨u, -, payloadBytes, hlt, hunit, hpadding, hzero⟩
    · have hno := isReservedName_member h hm
      rw [PackMemberPlan.placed, hno] at hreserved
      cases hreserved
    · refine verifyPaddingMember_ok hplaced _ ?_ hzero hlt
      rw [hpadding, h.volumeId]
      exact isPaddingPath_paddingPath h.sequence hunit
  · exact absurd hpath hne

/-- Every check on the members and the index of a rendered pack passes, so recovery writes the
files. -/
theorem recoverPack_eq (hunits : plan.units.flatMap (unitMembers plan.members) = plan.members)
    (hps : piecesPlaced 0 ps =
      plan.units.flatMap (unitPlaced plan.members readSourceChunks) ++ [index])
    (hpath : index.path = packIndexPath) (hcontent : index.content = plan.indexBytes)
    (hn : ∀ m ∈ plan.members, '\x00' ∉ m.path)
    (hnodup : ((piecesPlaced 0 ps).map PlacedMember.path).Nodup) (recorded : Text → Option Nat)
    (staging : Staging) :
    recoverPack (piecesBytes ps ++ zeros (tarBlockSize * 2)) (planVolume plan) recorded staging =
      (recoverFiles (piecesBytes ps ++ zeros (tarBlockSize * 2)) (pathTable (piecesPlaced 0 ps))
        plan.sequence recorded (plan.members.map identity) staging).bind
          fun tree => .ok (plan.members.map PackMemberPlan.file, tree) := by
  have hcases : ∀ m ∈ piecesPlaced 0 ps,
      m ∈ plan.units.flatMap (unitPlaced plan.members readSourceChunks) ∨ m = index := by
    intro m hm
    rwa [hps, mem_append, mem_singleton] at hm
  have hmem : index ∈ piecesPlaced 0 ps := by
    rw [hps]
    exact mem_append_right _ (mem_singleton_self _)
  have hnamed : ∀ m ∈ piecesPlaced 0 ps, NamedByPath m := by
    intro m hm
    rcases hcases m hm with hm | rfl
    · obtain ⟨parts, hp⟩ := isRelpath_placed h hm
      exact namedByPath hp (h.writable_placed hn hm).noNul
    · exact namedByPath (hpath ▸ isRelpath_packIndexPath) (hpath ▸ by decide)
  have hbyName : membersByName ((piecesPlaced 0 ps).map tarfileInfo) [] =
      .ok (pathTable (piecesPlaced 0 ps)) :=
    membersByName_ok hnamed hnodup (fun _ _ => not_mem_nil)
  have hlast : ((piecesPlaced 0 ps).map tarfileInfo).getLast? = some (tarfileInfo index) := by
    rw [hps, map_append, map_singleton, getLast?_append]
    rfl
  have hindex : (isfile (tarfileInfo index) && index.path == packIndexPath) = true := by
    rw [hpath, BEq.rfl]
    rfl
  have hsha : (sha256Hex plan.indexBytes == (planVolume plan).indexSha256) = true := by
    rw [planVolume, h.indexSha256, BEq.rfl]
  have hexact := @names_match nfc files maxMemberBytes plan readSourceChunks h hunits index hpath
  rw [← hps] at hexact
  have hpadding := padding_verifies h hps hpath hnodup
  rw [recoverPack, getmembers_pieces, tarCall, ok_bind, hbyName, ok_bind, ← hpath,
    lookupName_pathTable hmem hnodup, hlast, hpath]
  dsimp only
  rw [(hnamed index hmem).1, ok_bind, hindex, require_true, ok_bind, extract_placed hmem, ok_bind,
    hcontent, hsha, require_true, ok_bind, parsePackIndex_plan h, ok_bind, hexact, require_true,
    ok_bind, hpadding, ok_bind]
  rw [map_map]
  rfl

end Whole

/-! ## Recovery of a rendered pack -/

/-- The files of a plan can stand in one directory tree. -/
def Restorable (plan : PackVolumePlan) : Prop :=
  (∀ m ∈ plan.members, '\x00' ∉ m.path) ∧
    plan.members.Pairwise fun m m' => ¬ FileTree.Clash (pathParts m.path) (pathParts m'.path)

section Rendered

variable {nfc : Text → Text} {files : List ArchiveFile} {maxMemberBytes : Int}
  {plan : PackVolumePlan} {readSourceChunks : Text → List Bytes} {recorded : Text → Option Nat}

/-- A rendered pack that is recovered at all has paths that can stand in one tree. -/
theorem restorable_of_recoverPack (h : PlanLaid nfc files maxMemberBytes plan)
    (hm : SourcesMatch plan readSourceChunks) {out : List ArchiveFile} {tree : Staging}
    (hr : recoverPack (plan.units.flatMap (unitBytes plan readSourceChunks)) (planVolume plan)
      recorded empty = .ok (out, tree)) : Restorable plan := by
  obtain ⟨ps, index, hbytes, hps, hpath, hcontent, -, hunits⟩ := h.pieces hm
  rw [hbytes] at hr
  obtain ⟨byName, hfiles⟩ := recoverPack_inv h hps hpath hcontent hr
  have hp : ∀ f ∈ plan.members.map identity, IsRelpath f.path (pathParts f.path) := by
    rw [forall_mem_map]
    intro m hmem
    exact isRelpath_member h hmem
  have hdistinct : (plan.members.map identity).Pairwise
      fun f g => pathParts f.path ≠ pathParts g.path := by
    rw [pairwise_map]
    have hnodup := h.nodup_path
    rw [Nodup, pairwise_map] at hnodup
    refine hnodup.imp_of_mem ?_
    intro m m' hmem hmem' hne he
    have he' : pathParts m.path = pathParts m'.path := he
    apply hne
    rw [(isRelpath_member h hmem).join, he', ← (isRelpath_member h hmem').join]
  obtain ⟨hn, -, hpair⟩ := recoverFiles_inv hfiles hp holds_empty
    (fun _ _ => forall_mem_nil _) hdistinct
  rw [forall_mem_map] at hn
  rw [pairwise_map] at hpair
  exact ⟨hn, hpair⟩

/-- A rendered pack whose paths can stand in one tree is recovered. -/
theorem recoverPack_of_restorable (h : PlanLaid nfc files maxMemberBytes plan)
    (hm : SourcesMatch plan readSourceChunks) (hr : Restorable plan) :
    ∃ tree, recoverPack (plan.units.flatMap (unitBytes plan readSourceChunks)) (planVolume plan)
        recorded empty = .ok (plan.members.map PackMemberPlan.file, tree) ∧
      tree.Holds (plan.members.map fun m =>
        (pathParts m.path, (readSourceChunks m.path).flatten)) := by
  obtain ⟨ps, index, hbytes, hps, hpath, hcontent, -, hunits⟩ := h.pieces hm
  obtain ⟨hn, hpair⟩ := hr
  have hnodup : ((piecesPlaced 0 ps).map PlacedMember.path).Nodup := by
    rw [hps, map_append, map_singleton, hpath]
    exact nodup_names h hunits
  obtain ⟨tree, htree, hholds⟩ := @recoverFiles_ok (piecesBytes ps ++ zeros (tarBlockSize * 2))
    (pathTable (piecesPlaced 0 ps)) plan.sequence recorded
    (fun path => (readSourceChunks path).flatten) (plan.members.map identity) empty []
    (forall_mem_map.2 fun m hmem => inArchive_member h hm hunits hps hnodup hmem)
    (forall_mem_map.2 hn) holds_empty (fun _ _ => forall_mem_nil _)
    (pairwise_map.2 hpair)
  refine ⟨tree, ?_, ?_⟩
  · rw [hbytes, recoverPack_eq h hunits hps hpath hcontent hn hnodup, htree]
    rfl
  · rw [nil_append, map_map] at hholds
    exact hholds

end Rendered

/-- Into an empty directory, recovery of a rendered pack restores the planned files with their
contents exactly when no path holds a NUL and no path is a leading part of another. -/
theorem recoverPack_iff {nfc : Text → Text} {files : List ArchiveFile}
    {sequence maxMemberBytes partPlaintextBytes : Int} {plan : PackVolumePlan}
    (h : planPackVolume nfc files sequence maxMemberBytes partPlaintextBytes = .ok plan)
    {readSourceChunks : Text → List Bytes} (hm : SourcesMatch plan readSourceChunks)
    (recorded : Text → Option Nat) :
    ∃ chunks, renderPack plan readSourceChunks = .ok chunks ∧
      ((∃ tree, recoverPack chunks.flatten (planVolume plan) recorded empty =
          .ok (plan.members.map PackMemberPlan.file, tree) ∧
        tree.Holds (plan.members.map fun m =>
          (pathParts m.path, (readSourceChunks m.path).flatten))) ↔ Restorable plan) := by
  have hlaid := planPackVolume_laid h
  obtain ⟨chunks, hchunks, hflat⟩ := hlaid.renderPack_ok hm
  refine ⟨chunks, hchunks, ?_⟩
  rw [hflat]
  constructor
  · rintro ⟨tree, htree, -⟩
    exact restorable_of_recoverPack hlaid hm htree
  · intro hr
    exact recoverPack_of_restorable hlaid hm hr

/-- Two files that do not clash. -/
theorem recoverPack_iff_two_files :
    ∃ plan, planPackVolume id [⟨"b/c", 1, sha256Hex [104]⟩, ⟨"a", 0, sha256Hex []⟩]
        3 10 65536 = .ok plan ∧
      SourcesMatch plan (fun path => if path = "a" then [] else [[104]]) ∧
      ∃ chunks, renderPack plan (fun path => if path = "a" then [] else [[104]]) = .ok chunks ∧
        ∃ tree, recoverPack chunks.flatten (planVolume plan) (fun _ => none) empty =
          .ok (plan.members.map PackMemberPlan.file, tree) := by
  obtain ⟨plan, hplan, hcheck⟩ := exists_ok_of_elim
    (x := planPackVolume id [⟨"b/c", 1, sha256Hex [104]⟩, ⟨"a", 0, sha256Hex []⟩] 3 10 65536)
    (p := fun plan => plan.members.map PackMemberPlan.file ==
      [⟨"a", 0, sha256Hex []⟩, ⟨"b/c", 1, sha256Hex [104]⟩])
    (by decide +kernel)
  have hmembers := beq_iff_eq.1 hcheck
  have hall : ∀ f ∈ plan.members.map PackMemberPlan.file,
      Matches (fun path => if path = "a" then [] else [[104]]) f ∧ '\x00' ∉ f.path := by
    rw [hmembers, forall_mem_cons, forall_mem_singleton]
    exact ⟨⟨⟨rfl, rfl⟩, by decide⟩, ⟨rfl, rfl⟩, by decide⟩
  have hpair : (plan.members.map PackMemberPlan.file).Pairwise
      fun f g => ¬ FileTree.Clash (pathParts f.path) (pathParts g.path) := by
    rw [hmembers, pairwise_pair, FileTree.Clash]
    decide
  have hm : SourcesMatch plan (fun path => if path = "a" then [] else [[104]]) :=
    fun m hmem => (hall m.file (mem_map_of_mem hmem)).1
  have hr : Restorable plan :=
    ⟨fun m hmem => (hall m.file (mem_map_of_mem hmem)).2, pairwise_map.1 hpair⟩
  obtain ⟨chunks, hchunks, hiff⟩ := recoverPack_iff hplan hm (fun _ => none)
  obtain ⟨tree, htree, -⟩ := hiff.2 hr
  exact ⟨plan, hplan, hm, chunks, hchunks, tree, htree⟩

/-- A file `a` and a file `a/b` are planned and rendered, and never recovered. -/
theorem recoverPack_nested_paths :
    ∃ plan, planPackVolume id [⟨"a", 0, sha256Hex []⟩, ⟨"a/b", 0, sha256Hex []⟩]
        0 10 65536 = .ok plan ∧ SourcesMatch plan (fun _ => []) ∧
      ∃ chunks, renderPack plan (fun _ => []) = .ok chunks ∧ ∀ recorded out tree,
        recoverPack chunks.flatten (planVolume plan) recorded empty ≠ .ok (out, tree) := by
  obtain ⟨plan, hplan, hcheck⟩ := exists_ok_of_elim
    (x := planPackVolume id [⟨"a", 0, sha256Hex []⟩, ⟨"a/b", 0, sha256Hex []⟩] 0 10 65536)
    (p := fun plan => plan.members.map PackMemberPlan.file ==
      [⟨"a", 0, sha256Hex []⟩, ⟨"a/b", 0, sha256Hex []⟩])
    (by decide +kernel)
  have hmembers := beq_iff_eq.1 hcheck
  have hall : ∀ f ∈ plan.members.map PackMemberPlan.file, Matches (fun _ => []) f := by
    rw [hmembers, forall_mem_cons, forall_mem_singleton]
    exact ⟨⟨rfl, rfl⟩, rfl, rfl⟩
  have hm : SourcesMatch plan (fun _ => []) :=
    fun m hmem => hall m.file (mem_map_of_mem hmem)
  have hlaid := planPackVolume_laid hplan
  obtain ⟨chunks, hchunks, hflat⟩ := hlaid.renderPack_ok hm
  refine ⟨plan, hplan, hm, chunks, hchunks, ?_⟩
  intro recorded out tree htree
  rw [hflat] at htree
  obtain ⟨-, hpair⟩ := restorable_of_recoverPack hlaid hm htree
  have hfiles : (plan.members.map PackMemberPlan.file).Pairwise
      fun f g => ¬ FileTree.Clash (pathParts f.path) (pathParts g.path) := pairwise_map.2 hpair
  rw [hmembers, pairwise_pair, FileTree.Clash] at hfiles
  exact hfiles (by decide)

end Riverhog.Recovery
