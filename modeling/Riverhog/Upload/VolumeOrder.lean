import Riverhog.Core.Tiling
import Riverhog.Upload.Batching

/-!
# What the volumes hold, and in which order

Both planners decide first which files share a pack and which file is cut into
segments, and number the volumes as they go. Here the decision is a list of contents
(`contentsFrom`), and `planContents` plans and numbers them. The incremental planner
keeps the order of the files, so a large file closes the pack in progress; its volumes
are packs followed by segments exactly when no small file follows a large one.
-/

namespace Riverhog.Upload

open Core Core.Tiling Protocol Pack List Except

/-- The files of a pack, or the file that is cut into segments. -/
inductive Content where
  | pack (files : List ArchiveFile)
  | raw (file : ArchiveFile)

/-- The files of a content. -/
def Content.files : Content → List ArchiveFile
  | .pack files => files
  | .raw file => [file]

/-- The content is a pack. -/
def Content.isPack : Content → Bool
  | .pack _ => true
  | .raw _ => false

/-- The volume is a pack. -/
def VolumePlan.isPack : VolumePlan → Bool
  | .pack _ => true
  | .raw _ => false

/-- The file is below the size from which files get volumes of their own. -/
def Small (policy : CollectionVolumePolicy) (f : ArchiveFile) : Prop :=
  f.bytes < policy.packMemberBytes

instance (policy : CollectionVolumePolicy) (f : ArchiveFile) : Decidable (Small policy f) :=
  inferInstanceAs (Decidable (_ < _))

/-- The pack in progress, if there is one. -/
def pendingPack (pending : List ArchiveFile) : List Content :=
  if pending.isEmpty then [] else [.pack pending]

/-- What the incremental planner places when it comes to a file. -/
def placedBefore (policy : CollectionVolumePolicy) (pending : List ArchiveFile) (f : ArchiveFile) :
    List Content :=
  if Small policy f then
    if !pending.isEmpty && packFull policy.packFiles policy.packSourceBytes pending f then
      pendingPack pending
    else []
  else pendingPack pending ++ [.raw f]

/-- What the incremental planner places after the pending files. -/
def contentsFrom (policy : CollectionVolumePolicy) :
    List ArchiveFile → List ArchiveFile → List Content
  | pending, [] => pendingPack pending
  | pending, f :: files =>
    placedBefore policy pending f ++ contentsFrom policy (openPackStep policy pending f) files

section Definitions

variable (nfc : Text → Text) (policy : CollectionVolumePolicy)

/-- The volumes of one content, numbered from `sequence`. -/
def Content.plan : Content → Nat → Py (List VolumePlan)
  | .pack files, sequence => do
    let plan ← planPackVolume nfc files sequence policy.packMemberBytes
      policy.packPartPlaintextBytes
    return [.pack plan]
  | .raw file, sequence => do
    let segments ← fileSegments policy.rawVolumePlaintextBytes file sequence
    return segments.map .raw

/-- The volumes of some contents, numbered from `sequence`. -/
def planContents : List Content → Nat → Py (List VolumePlan)
  | [], _ => .ok []
  | content :: contents, sequence => do
    let volumes ← content.plan nfc policy sequence
    let more ← planContents contents (sequence + volumes.length)
    return volumes ++ more

end Definitions

/-! ## Segments -/

/-- The range of its file that a segment holds. -/
def RawVolumePlan.range (p : RawVolumePlan) : Range := ⟨p.fileOffset, p.plaintextBytes⟩

/-- The segments are those of a file: they lead from its first byte to its last one. -/
structure Segmented (maxPlaintextBytes : Nat) (f : ArchiveFile) (segments : List RawVolumePlan) :
    Prop where
  nonempty : segments ≠ []
  chain : Chain 0 (segments.map RawVolumePlan.range) f.bytes
  source : ∀ p ∈ segments, p = segmentAt f p.sequence p.fileOffset p.plaintextBytes
  within : ∀ p ∈ segments, 0 < p.plaintextBytes ∧ p.plaintextBytes ≤ maxPlaintextBytes
  sequence : ∀ p ∈ segments, p.sequence < 2 ^ 256

theorem rawSegments_segmented {f : ArchiveFile} {maxPlaintextBytes fuel offset sequence : Nat}
    {segments : List RawVolumePlan} (hmax : 0 < maxPlaintextBytes) (ho : offset ≤ f.bytes)
    (h : rawSegments f maxPlaintextBytes fuel offset sequence = .ok segments) :
    Chain offset (segments.map RawVolumePlan.range) f.bytes ∧
      ∀ p ∈ segments, p = segmentAt f p.sequence p.fileOffset p.plaintextBytes ∧
        (0 < p.plaintextBytes ∧ p.plaintextBytes ≤ maxPlaintextBytes) ∧ p.sequence < 2 ^ 256 := by
  induction fuel generalizing offset sequence segments with
  | zero => cases h
  | succ fuel ih =>
    rw [rawSegments] at h
    by_cases hlt : offset < f.bytes
    · rw [if_pos hlt] at h
      simp only [bind_eq_ok, require_eq_ok, decide_eq_true_eq] at h
      obtain ⟨-, hsequence, rest, hrest, h⟩ := h
      obtain rfl := ok.inj h
      have hle : offset + min maxPlaintextBytes (f.bytes - offset) ≤ f.bytes := by omega
      obtain ⟨hchain, hall⟩ := ih hle hrest
      refine ⟨⟨rfl, Int.natCast_nonneg _, ?_⟩, ?_⟩
      · rw [Nat.cast_add] at hchain
        exact hchain
      · rw [forall_mem_cons]
        refine ⟨⟨rfl, ⟨?_, ?_⟩, hsequence⟩, hall⟩
        · exact lt_min hmax (Nat.sub_pos_of_lt hlt)
        · exact min_le_left _ _
    · rw [if_neg hlt] at h
      obtain rfl := ok.inj h
      refine ⟨?_, by simp⟩
      change (offset : ℤ) = f.bytes
      omega

theorem fileSegments_segmented {f : ArchiveFile} {maxPlaintextBytes sequence : Nat}
    {segments : List RawVolumePlan} (hmax : 0 < maxPlaintextBytes) (hb : 0 < f.bytes)
    (h : fileSegments maxPlaintextBytes f sequence = .ok segments) :
    Segmented maxPlaintextBytes f segments := by
  rw [fileSegments, if_neg hb.ne'] at h
  obtain ⟨hchain, hall⟩ := rawSegments_segmented hmax (Nat.zero_le _) h
  refine ⟨?_, hchain, fun p hp => (hall p hp).1, fun p hp => (hall p hp).2.1,
    fun p hp => (hall p hp).2.2⟩
  rintro rfl
  have hzero : (0 : ℤ) = f.bytes := hchain
  omega

section Planning

variable {nfc : Text → Text} {policy : CollectionVolumePolicy}

variable {f : ArchiveFile} {volumes : List VolumePlan} {sequence : Nat} {s : PlanProgress}

theorem planContents_singleton (content : Content) :
    planContents nfc policy [content] sequence = content.plan nfc policy sequence := by
  rw [planContents]
  cases content.plan nfc policy sequence with
  | error e => rfl
  | ok volumes => exact congrArg ok (append_nil volumes)

theorem planContents_append {first rest : List Content} :
    planContents nfc policy (first ++ rest) sequence = .ok volumes ↔
      ∃ before more, planContents nfc policy first sequence = .ok before ∧
        planContents nfc policy rest (sequence + before.length) = .ok more ∧
        volumes = before ++ more := by
  induction first generalizing sequence volumes with
  | nil => simp [planContents]
  | cons content first ih =>
    simp only [cons_append, planContents, bind_eq_ok, ih]
    constructor
    · rintro ⟨block, hblock, _, ⟨before, more, hbefore, hmore, rfl⟩, h⟩
      refine ⟨_, more, ⟨block, hblock, before, hbefore, rfl⟩, ?_, ?_⟩
      · rwa [length_append, ← Nat.add_assoc]
      · rw [← ok.inj h, append_assoc]
    · rintro ⟨_, more, ⟨block, hblock, before, hbefore, h⟩, hmore, rfl⟩
      obtain rfl := ok.inj h
      rw [length_append, ← Nat.add_assoc] at hmore
      refine ⟨block, hblock, _, ⟨before, more, hbefore, hmore, rfl⟩, ?_⟩
      rw [append_assoc]
      rfl

theorem planContents_pack (groups : List (List ArchiveFile)) (sequence : Nat) :
    planContents nfc policy (groups.map .pack) sequence =
      (planGroups nfc policy.packMemberBytes policy.packPartPlaintextBytes groups sequence).map
        (·.map .pack) := by
  induction groups generalizing sequence with
  | nil => rfl
  | cons group groups ih =>
    simp only [map_cons, planContents, Content.plan, planGroups]
    cases planPackVolume nfc group sequence policy.packMemberBytes
      policy.packPartPlaintextBytes with
    | error e => rfl
    | ok plan =>
      change (planContents nfc policy (groups.map .pack) (sequence + 1) >>= _) = _
      rw [ih, map_bind, ok_bind, bind_map]
      rfl

/-- Large files that the planner accepts, as it plans them in one call. -/
theorem planContents_raw {files : List ArchiveFile} {seen : List Text} (sequence : Nat)
    (hr : ∀ f ∈ files, reservedArchivePrefix.isPrefixOf f.path = false)
    (hi : ∀ f ∈ files, isSha256 f.sha256 = true) (hd : (files.map ArchiveFile.path).Nodup)
    (hn : ∀ f ∈ files, f.path ∉ seen) :
    planContents nfc policy (files.map .raw) sequence =
      (rawFiles policy.rawVolumePlaintextBytes files seen sequence).map (·.map .raw) := by
  induction files generalizing seen sequence with
  | nil => rfl
  | cons f files ih =>
    rw [forall_mem_cons] at hr hi hn
    have hseen : seen.contains f.path = false := by simpa using hn.1
    simp only [map_cons, planContents, Content.plan, rawFiles, hr.1, hi.1, hseen,
      Bool.not_false, require_true, ok_bind]
    cases fileSegments policy.rawVolumePlaintextBytes f sequence with
    | error e => rfl
    | ok segments =>
      change (planContents nfc policy (files.map .raw)
        (sequence + (segments.map VolumePlan.raw).length) >>= _) = _
      rw [length_map, ih _ hr.2 hi.2 hd.of_cons (notMem_seen hd hn.2), map_bind, ok_bind, bind_map]
      congr 1
      funext plans
      exact congrArg ok map_append.symm

/-! ## The incremental planner -/

/-- A file that the planner takes as it is. -/
structure Plannable (nfc : Text → Text) (f : ArchiveFile) : Prop where
  canonical : Canonical nfc f
  unreserved : reservedArchivePrefix.isPrefixOf f.path = false
  identity : isSha256 f.sha256 = true

theorem Plannable.normalizedFile_eq (h : Plannable nfc f) : normalizedFile nfc f = .ok f := by
  have hc := h.canonical
  rw [Canonical] at hc
  simp [normalizedFile, hc, h.unreserved, h.identity, pure, Except.pure]

/-- A large file planned on its own. -/
theorem planRawVolumes_eq_ok_iff (h : Plannable nfc f) (hb : 0 < f.bytes)
    {segments : List RawVolumePlan} :
    planRawVolumes nfc [f] sequence policy.rawVolumePlaintextBytes = .ok segments ↔
      fileSegments policy.rawVolumePlaintextBytes f sequence = .ok segments := by
  refine ⟨planRawVolumes_inv h.canonical, fun hs => ?_⟩
  have hsequence : sequence < 2 ^ 256 := by
    rw [fileSegments, if_neg hb.ne', rawSegments, if_pos hb] at hs
    simp only [bind_eq_ok, require_eq_ok, decide_eq_true_eq] at hs
    obtain ⟨-, hlt, -⟩ := hs
    exact hlt
  have hnormal : [f].mapM (normalizedPath nfc) = .ok [f] := by
    have hc := h.canonical
    rw [Canonical] at hc
    rw [mapM_cons, normalizedPath, hc]
    rfl
  have hsort : sortedBy ArchiveFile.path [f] = [f] := rfl
  have hpos := policy.positive.2.2.2.2.1
  simp only [planRawVolumes, bind_eq_ok, require_eq_ok]
  refine ⟨(), decide_eq_true hsequence, (), decide_eq_true hpos, [f], hnormal, ?_⟩
  rw [hsort]
  simp only [rawFiles, bind_eq_ok, require_eq_ok]
  refine ⟨(), by simp [h.unreserved], (), by simp, (), h.identity, segments, hs, [], rfl, ?_⟩
  rw [append_nil]
  rfl

/-- Closing the pack in progress plans it. -/
theorem flushPack_eq_ok_iff {t : PlanProgress} :
    flushPack nfc policy true s = .ok t ↔
      ∃ volumes, planContents nfc policy (pendingPack s.pending) s.nextSequence = .ok volumes ∧
        t = { s with
          pending := [], nextSequence := s.nextSequence + volumes.length,
          emitted := s.emitted ++ volumes } := by
  rw [flushPack, pendingPack]
  by_cases hp : s.pending.isEmpty = true
  · have hnil : s.pending = [] := isEmpty_iff.1 hp
    simp only [hp, Bool.not_true, Bool.or_true, if_true, planContents]
    constructor
    · intro h
      refine ⟨[], rfl, ?_⟩
      rw [← ok.inj h, ← hnil, append_nil]
      rfl
    · rintro ⟨volumes, h, rfl⟩
      obtain rfl := ok.inj h
      rw [← hnil, append_nil]
      rfl
  · simp only [hp, Bool.not_true, Bool.or_false, if_false, planContents_singleton, Content.plan,
      bind_eq_ok, Bool.false_eq_true]
    constructor
    · rintro ⟨plan, hplan, h⟩
      exact ⟨[.pack plan], ⟨plan, hplan, rfl⟩, (ok.inj h).symm⟩
    · rintro ⟨volumes, ⟨plan, hplan, h⟩, rfl⟩
      obtain rfl := ok.inj h
      exact ⟨plan, hplan, rfl⟩

/-- What the loop does with the volumes of one file. -/
theorem placeFile_eq_ok_iff {t : PlanProgress} (h : Plannable nfc f) :
    placeFile nfc policy f s = .ok t ↔
      ∃ volumes, planContents nfc policy (placedBefore policy s.pending f) s.nextSequence =
          .ok volumes ∧
        t = { s with
          pending := openPackStep policy s.pending f
          nextSequence := s.nextSequence + volumes.length
          emitted := s.emitted ++ volumes } := by
  rw [placeFile, placedBefore, openPackStep]
  by_cases hsmall : Small policy f
  · have hlt : f.bytes < policy.packMemberBytes := hsmall
    simp only [hlt, hsmall, if_true]
    change (flushPack nfc policy (!s.pending.isEmpty && packFull policy.packFiles
      policy.packSourceBytes s.pending f) s >>= _) = _ ↔ _
    cases !s.pending.isEmpty && packFull policy.packFiles policy.packSourceBytes s.pending f with
    | true =>
      simp only [bind_eq_ok, flushPack_eq_ok_iff, if_true]
      constructor
      · rintro ⟨_, ⟨volumes, hvolumes, rfl⟩, ht⟩
        exact ⟨volumes, hvolumes, (ok.inj ht).symm⟩
      · rintro ⟨volumes, hvolumes, rfl⟩
        exact ⟨_, ⟨volumes, hvolumes, rfl⟩, rfl⟩
    | false =>
      simp only [flushPack, Bool.not_false, Bool.true_or, if_true, Bool.false_eq_true, if_false,
        planContents]
      constructor
      · intro ht
        refine ⟨[], rfl, ?_⟩
        rw [← ok.inj ht, append_nil]
        rfl
      · rintro ⟨volumes, hvolumes, rfl⟩
        obtain rfl := ok.inj hvolumes
        rw [append_nil]
        rfl
  · have hlt : ¬ f.bytes < policy.packMemberBytes := hsmall
    have hpos : 0 < f.bytes := policy.positive.2.2.1.trans (not_lt.1 hlt)
    simp only [hlt, hsmall, if_false, bind_eq_ok, flushPack_eq_ok_iff, planContents_append,
      planContents_singleton, Content.plan, planRawVolumes_eq_ok_iff h hpos]
    constructor
    · rintro ⟨_, ⟨before, hbefore, rfl⟩, segments, hsegments, ht⟩
      refine ⟨_, ⟨before, segments.map .raw, hbefore, ⟨segments, hsegments, rfl⟩, rfl⟩, ?_⟩
      rw [← ok.inj ht]
      simp only [length_append, length_map, append_assoc, Nat.add_assoc]
    · rintro ⟨_, ⟨before, more, hbefore, ⟨segments, hsegments, hmore⟩, rfl⟩, rfl⟩
      obtain rfl := ok.inj hmore
      refine ⟨_, ⟨before, hbefore, rfl⟩, segments, hsegments, ?_⟩
      simp only [length_append, length_map, append_assoc, Nat.add_assoc]
      rfl

variable {files : List OrderedArchiveFile}

section

variable (h : ∀ o ∈ files, Plannable nfc o.file)
include h

/-- The loop over some files, with the pack that is closed at the end. -/
theorem planFiles_eq_ok_iff
    (ho : files.map OrderedArchiveFile.order = range' s.nextOrder files.length)
    {out : List VolumePlan} :
    (∃ t u, files.foldlM (planFile nfc policy) s = .ok t ∧ flushPack nfc policy true t = .ok u ∧
        u.emitted = out) ↔
      ∃ volumes, planContents nfc policy
          (contentsFrom policy s.pending (files.map OrderedArchiveFile.file)) s.nextSequence =
            .ok volumes ∧ out = s.emitted ++ volumes := by
  induction files generalizing s with
  | nil =>
    simp only [foldlM_nil, flushPack_eq_ok_iff, map_nil, contentsFrom]
    constructor
    · rintro ⟨t, u, ht, ⟨volumes, hvolumes, rfl⟩, rfl⟩
      obtain rfl := ok.inj ht
      exact ⟨volumes, hvolumes, rfl⟩
    · rintro ⟨volumes, hvolumes, rfl⟩
      exact ⟨s, _, rfl, ⟨volumes, hvolumes, rfl⟩, rfl⟩
  | cons o files ih =>
    rw [forall_mem_cons] at h
    rw [map_cons, length_cons, range'_succ, cons.injEq] at ho
    simp only [foldlM_cons, planFile, h.1.normalizedFile_eq, ok_bind, ho.1, beq_self_eq_true,
      require_true, bind_eq_ok, placeFile_eq_ok_iff h.1, map_cons, contentsFrom,
      planContents_append]
    constructor
    · rintro ⟨t, u, ⟨v, ⟨_, ⟨before, hbefore, rfl⟩, hv⟩, ht⟩, hu, rfl⟩
      obtain rfl := ok.inj hv
      obtain ⟨more, hmore, hout⟩ := (ih h.2 ho.2).1 ⟨t, u, ht, hu, rfl⟩
      exact ⟨_, ⟨before, more, hbefore, hmore, rfl⟩, by rw [hout, append_assoc]⟩
    · rintro ⟨_, ⟨before, more, hbefore, hmore, rfl⟩, rfl⟩
      let digest := if s.filesSeen = 0 then s.contentDigest else s.contentDigest.update [44]
      let v : PlanProgress := ⟨openPackStep policy s.pending o.file, s.nextOrder + 1,
        s.nextSequence + before.length, s.filesSeen + 1, s.bytesSeen + o.file.bytes,
        digest.update (contentIdentityMemberBytes o.file), s.emitted ++ before⟩
      obtain ⟨t, u, ht, hu, hout⟩ :=
        (ih (s := v) h.2 ho.2).2 ⟨more, hmore, (append_assoc _ _ _).symm⟩
      exact ⟨t, u, ⟨v, ⟨_, ⟨before, hbefore, rfl⟩, rfl⟩, ht⟩, hu, hout⟩

theorem mapM_plannedFile :
    files.mapM (plannedFile nfc) = .ok (files.map OrderedArchiveFile.file) := by
  refine mapM_plannedFile_eq_iff.2 fun o ho => ?_
  rw [plannedFile, (h o ho).normalizedFile_eq, ok_bind, (h o ho).normalizedFile_eq]

/-- One call over a whole collection returns the volumes of the contents, as long as they can be
numbered and the document of the content identity can be hashed. -/
theorem advance_eq_ok_of_planContents (ho : files.map OrderedArchiveFile.order = range files.length)
    (hv : planContents nfc policy (contentsFrom policy [] (files.map OrderedArchiveFile.file)) 0 =
      .ok volumes) (hcount : volumes.length < 2 ^ 256)
    (hdocument : (contentDocument (files.map OrderedArchiveFile.file)).length < 2 ^ 61) :
    ∃ final, advanceIncrementalVolumePlan nfc (newIncrementalVolumePlanner policy) files true =
      .ok (final, volumes) := by
  rw [range_eq_range'] at ho
  have hrun := (planFiles_eq_ok_iff (s := (newIncrementalVolumePlanner policy).start) h ho).2
    ⟨volumes, hv, rfl⟩
  obtain ⟨s, t, hs, ht, rfl⟩ := hrun
  obtain ⟨more, hmore, hreached⟩ := (reached_new policy).planFiles hs
  obtain rfl : files.map OrderedArchiveFile.file = more :=
    ok.inj ((mapM_plannedFile h).symm.trans hmore)
  obtain ⟨hpending, hkeep⟩ := flushPack_pending ht
  have hemits : t.Emits 0 := (PlanProgress.Emits.planFiles ⟨rfl, rfl⟩ hs).flushPack ht
  have hdigest : t.contentDigest.update contentIdentitySuffix =
      .of (contentDocument (files.map OrderedArchiveFile.file)) := by
    rw [hkeep, contentDocument]
    rw [hreached.contentDigest, nil_append, CheckpointSHA256.update_of]
  have hidentity : closedIdentity t.contentDigest true =
      .ok (some (collectionContentIdentityOrdered (files.map OrderedArchiveFile.file))) := by
    rw [closedIdentity, if_pos rfl, hdigest, CheckpointSHA256.hexdigest_of hdocument]
    rfl
  let final : IncrementalVolumePlannerCheckpoint := ⟨policy, t.contentDigest, t.nextOrder,
    t.nextSequence, t.filesSeen, t.bytesSeen, t.pending, true,
    some (collectionContentIdentityOrdered (files.map OrderedArchiveFile.file))⟩
  refine ⟨final, advance_eq_ok_iff.2 ⟨rfl, s, t, hs, ht, hidentity, ?_, rfl, rfl⟩⟩
  have hseen : t.nextOrder = t.filesSeen := by
    rw [hkeep]
    exact hreached.nextOrder.trans hreached.filesSeen.symm
  have hnext : t.nextSequence < 2 ^ 256 := by
    rw [hemits.nextSequence, Nat.zero_add]
    exact hcount
  rw [if_pos rfl] at hpending
  simp only [checkCheckpoint, bind_eq_ok, require_eq_ok, final, hpending]
  exact ⟨(), by simpa using hseen, (), decide_eq_true hnext, (), by simp, 0, rfl, (), by simp,
    by simp⟩

/-- What one call over a whole collection returns are the volumes of the contents. -/
theorem planContents_of_advance (ho : files.map OrderedArchiveFile.order = range files.length)
    {final : IncrementalVolumePlannerCheckpoint}
    (ha : advanceIncrementalVolumePlan nfc (newIncrementalVolumePlanner policy) files true =
      .ok (final, volumes)) :
    planContents nfc policy (contentsFrom policy [] (files.map OrderedArchiveFile.file)) 0 =
      .ok volumes := by
  obtain ⟨-, s, t, hs, ht, -, -, hvolumes, -⟩ := advance_eq_ok_iff.1 ha
  rw [range_eq_range'] at ho
  obtain ⟨more, hmore, hout⟩ := (planFiles_eq_ok_iff h ho).1 ⟨s, t, hs, ht, hvolumes.symm⟩
  rw [hout]
  exact hmore

end

/-! ## Packs before segments -/

/-- Small files, then large ones. -/
theorem contentsFrom_append {small large : List ArchiveFile} (hs : ∀ f ∈ small, Small policy f)
    (hl : ∀ f ∈ large, ¬ Small policy f) (pending : List ArchiveFile) :
    contentsFrom policy pending (small ++ large) =
      (Greedy.groupsFrom (packFull policy.packFiles policy.packSourceBytes) pending small).map
        .pack ++ large.map .raw := by
  have hpending : ∀ pending : List ArchiveFile, pendingPack pending =
      (Greedy.groupsFrom (packFull policy.packFiles policy.packSourceBytes) pending []).map
        .pack := by
    intro pending
    rw [pendingPack, Greedy.groupsFrom]
    split_ifs <;> rfl
  induction small generalizing pending with
  | nil =>
    rw [nil_append, ← hpending]
    induction large generalizing pending with
    | nil => rw [contentsFrom, map_nil, append_nil]
    | cons f large ih =>
      rw [forall_mem_cons] at hl
      have hlt : ¬ f.bytes < policy.packMemberBytes := hl.1
      rw [contentsFrom, placedBefore, if_neg hl.1, openPackStep, if_neg hlt, ih hl.2, append_assoc]
      rfl
  | cons f small ih =>
    rw [forall_mem_cons] at hs
    have hlt : f.bytes < policy.packMemberBytes := hs.1
    rw [cons_append, contentsFrom, placedBefore, if_pos hs.1, openPackStep, if_pos hlt,
      Greedy.groupsFrom]
    split_ifs with hfull
    · have hne : pending.isEmpty = false := by
        simp only [Bool.and_eq_true, Bool.not_eq_true'] at hfull
        exact hfull.1
      rw [ih hs.2, pendingPack, hne]
      rfl
    · rw [ih hs.2, nil_append]

/-- A content is planned as one volume or more, all of its kind. -/
theorem Content.plan_isPack {content : Content}
    (hb : content.isPack = false → ∀ f ∈ content.files, 0 < f.bytes)
    (h : content.plan nfc policy sequence = .ok volumes) :
    volumes ≠ [] ∧ ∀ v ∈ volumes, v.isPack = content.isPack := by
  cases content with
  | pack files =>
    simp only [Content.plan, bind_eq_ok] at h
    obtain ⟨plan, -, h⟩ := h
    obtain rfl := ok.inj h
    simp [VolumePlan.isPack, Content.isPack]
  | raw file =>
    simp only [Content.plan, bind_eq_ok] at h
    obtain ⟨segments, hsegments, h⟩ := h
    obtain rfl := ok.inj h
    have hs := fileSegments_segmented policy.positive.2.2.2.2.1 (hb rfl file (by simp [files]))
      hsegments
    simp [VolumePlan.isPack, Content.isPack, hs.nonempty]

/-- The files of the contents, in order. -/
theorem flatMap_files_contentsFrom (pending files : List ArchiveFile) :
    (contentsFrom policy pending files).flatMap Content.files = pending ++ files := by
  have hpending : ∀ pending, (pendingPack pending).flatMap Content.files = pending := by
    intro pending
    rw [pendingPack]
    split_ifs with hp
    · exact (isEmpty_iff.1 hp).symm
    · simp [Content.files]
  induction files generalizing pending with
  | nil => rw [contentsFrom, hpending, append_nil]
  | cons f files ih =>
    rw [contentsFrom, flatMap_append, ih, placedBefore, openPackStep]
    by_cases hsmall : Small policy f
    · have hlt : f.bytes < policy.packMemberBytes := hsmall
      rw [if_pos hsmall, if_pos hlt]
      split_ifs
      · rw [hpending, singleton_append]
      · simp
    · have hlt : ¬ f.bytes < policy.packMemberBytes := hsmall
      rw [if_neg hsmall, if_neg hlt, flatMap_append, hpending]
      simp [Content.files]

/-- Packs hold small files, segments large ones. -/
theorem small_of_mem_contentsFrom {pending files : List ArchiveFile}
    (hp : ∀ f ∈ pending, Small policy f) :
    ∀ content ∈ contentsFrom policy pending files, content.files ≠ [] ∧
      ∀ f ∈ content.files, (Small policy f ↔ content.isPack = true) := by
  have hpack : ∀ pending, (∀ f ∈ pending, Small policy f) → ∀ content ∈ pendingPack pending,
      content.files ≠ [] ∧ ∀ f ∈ content.files, (Small policy f ↔ content.isPack = true) := by
    intro pending hp content hc
    rw [pendingPack] at hc
    split_ifs at hc with he
    · cases hc
    · rw [mem_singleton.1 hc]
      exact ⟨by simpa [Content.files] using he, fun f hf => iff_of_true (hp f hf) rfl⟩
  induction files generalizing pending with
  | nil => exact hpack pending hp
  | cons f files ih =>
    rw [contentsFrom, forall_mem_append, placedBefore, openPackStep]
    by_cases hsmall : Small policy f
    · have hlt : f.bytes < policy.packMemberBytes := hsmall
      rw [if_pos hsmall, if_pos hlt]
      split_ifs
      · exact ⟨hpack pending hp, ih (forall_mem_singleton.2 hsmall)⟩
      · refine ⟨by simp, ih (forall_mem_append.2 ⟨hp, forall_mem_singleton.2 hsmall⟩)⟩
    · have hlt : ¬ f.bytes < policy.packMemberBytes := hsmall
      rw [if_neg hsmall, if_neg hlt, forall_mem_append, forall_mem_singleton]
      refine ⟨⟨hpack pending hp, by simp [Content.files], fun g hg => ?_⟩, ih (by simp)⟩
      rw [mem_singleton.1 hg]
      exact iff_of_false hsmall Bool.false_ne_true

/-- Contents are in the order of their volumes. -/
theorem pairwise_isPack_of_planContents {contents : List Content}
    (hb : ∀ content ∈ contents, content.isPack = false → ∀ f ∈ content.files, 0 < f.bytes)
    (h : planContents nfc policy contents sequence = .ok volumes)
    (hv : volumes.Pairwise fun v w => w.isPack = true → v.isPack = true) :
    (contents.Pairwise fun c d => d.isPack = true → c.isPack = true) ∧
      ∀ content ∈ contents, ∃ v ∈ volumes, v.isPack = content.isPack := by
  induction contents generalizing sequence volumes with
  | nil => simp
  | cons content contents ih =>
    simp only [planContents, bind_eq_ok] at h
    obtain ⟨block, hblock, more, hmore, h⟩ := h
    obtain rfl := ok.inj h
    rw [forall_mem_cons] at hb
    rw [pairwise_append] at hv
    obtain ⟨hne, hkind⟩ := Content.plan_isPack hb.1 hblock
    obtain ⟨v, hvmem⟩ := exists_mem_of_ne_nil block hne
    obtain ⟨hpairs, hmem⟩ := ih hb.2 hmore hv.2.1
    rw [pairwise_cons, forall_mem_cons]
    refine ⟨⟨fun d hd hpack => ?_, hpairs⟩, ⟨v, ?_, hkind v hvmem⟩, fun d hd => ?_⟩
    · obtain ⟨w, hw, hwkind⟩ := hmem d hd
      rw [← hkind v hvmem]
      exact hv.2.2 v hvmem w hw (hwkind.trans hpack)
    · exact mem_append_left _ hvmem
    · obtain ⟨w, hw, hwkind⟩ := hmem d hd
      exact ⟨w, mem_append_right _ hw, hwkind⟩

/-- No small file follows a large one. -/
def SmallFirst (policy : CollectionVolumePolicy) (files : List ArchiveFile) : Prop :=
  files.Pairwise fun f g => Small policy g → Small policy f

instance (files : List ArchiveFile) : Decidable (SmallFirst policy files) :=
  inferInstanceAs (Decidable (Pairwise _ _))

theorem SmallFirst.eq_append {files : List ArchiveFile} (h : SmallFirst policy files) :
    (files.filter fun f => decide (Small policy f)) ++
      (files.filter fun f => decide (¬ Small policy f)) = files := by
  induction files with
  | nil => rfl
  | cons f files ih =>
    rw [SmallFirst, pairwise_cons] at h
    by_cases hf : Small policy f
    · rw [filter_cons_of_pos (by simpa using hf), filter_cons_of_neg (by simpa using hf),
        cons_append, ih h.2]
    · have hlarge : ∀ g ∈ files, ¬ Small policy g := fun g hg hs => hf (h.1 g hg hs)
      have hnone : (files.filter fun f => decide (Small policy f)) = [] := by
        rw [filter_eq_nil_iff]
        simpa using hlarge
      have hall : (files.filter fun f => decide (¬ Small policy f)) = files := by
        rw [filter_eq_self]
        simpa using hlarge
      rw [filter_cons_of_neg (by simpa using hf), filter_cons_of_pos (by simpa using hf),
        hnone, hall, nil_append]

/-- The incremental planner returns the packs of the small files followed by the segments of the
large ones exactly when the files come in this order. -/
theorem advance_packs_segments_iff (h : ∀ o ∈ files, Plannable nfc o.file)
    (ho : files.map OrderedArchiveFile.order = range files.length)
    {packs : List PackVolumePlan} {raws : List RawVolumePlan} (hv : planContents nfc policy
      ((Greedy.groups (packFull policy.packFiles policy.packSourceBytes)
        ((files.map OrderedArchiveFile.file).filter fun f => decide (Small policy f))).map .pack ++
        ((files.map OrderedArchiveFile.file).filter fun f => decide (¬ Small policy f)).map .raw)
      0 = .ok (packs.map .pack ++ raws.map .raw)) (hcount : packs.length + raws.length < 2 ^ 256)
    (hdocument : (contentDocument (files.map OrderedArchiveFile.file)).length < 2 ^ 61) :
    (∃ final, advanceIncrementalVolumePlan nfc (newIncrementalVolumePlanner policy) files true =
        .ok (final, packs.map .pack ++ raws.map .raw)) ↔
      SmallFirst policy (files.map OrderedArchiveFile.file) := by
  constructor
  · rintro ⟨final, ha⟩
    have hcontents := planContents_of_advance h ho ha
    have hkinds : ∀ content ∈ contentsFrom policy [] (files.map OrderedArchiveFile.file),
        content.files ≠ [] ∧ ∀ f ∈ content.files, (Small policy f ↔ content.isPack = true) :=
      small_of_mem_contentsFrom (by simp)
    have hpositive : ∀ content ∈ contentsFrom policy [] (files.map OrderedArchiveFile.file),
        content.isPack = false → ∀ f ∈ content.files, 0 < f.bytes := by
      intro content hc hraw f hf
      have hlarge : ¬ f.bytes < policy.packMemberBytes := by
        rw [← Small, (hkinds content hc).2 f hf, hraw]
        exact Bool.false_ne_true
      exact policy.positive.2.2.1.trans (not_lt.1 hlarge)
    have hvolumes : (packs.map VolumePlan.pack ++ raws.map VolumePlan.raw).Pairwise
        fun v w => w.isPack = true → v.isPack = true := by
      rw [pairwise_append, pairwise_map, pairwise_map]
      refine ⟨pairwise_of_forall fun _ _ _ => rfl, pairwise_of_forall fun _ _ => id, ?_⟩
      intro v hv _ _ _
      obtain ⟨pack, -, rfl⟩ := mem_map.1 hv
      rfl
    have hpairs := (pairwise_isPack_of_planContents hpositive hcontents hvolumes).1
    have hfiles : (contentsFrom policy [] (files.map OrderedArchiveFile.file)).flatMap Content.files =
        files.map OrderedArchiveFile.file := flatMap_files_contentsFrom [] _
    rw [SmallFirst, ← hfiles, pairwise_flatMap]
    refine ⟨fun content hc => ?_, hpairs.imp_of_mem fun {c d} hc hd hcd f hf g hg hs => ?_⟩
    · refine Pairwise.imp_of_mem (R := fun _ _ => True) (fun {f g} hf hg _ hs => ?_)
        (pairwise_of_forall fun _ _ => trivial)
      rw [(hkinds content hc).2 f hf, ← (hkinds content hc).2 g hg]
      exact hs
    · rw [(hkinds c hc).2 f hf]
      exact hcd (((hkinds d hd).2 g hg).1 hs)
  · intro hfirst
    have hsmall : ∀ f ∈ (files.map OrderedArchiveFile.file).filter fun f => decide (Small policy f),
        Small policy f := fun f hf => of_decide_eq_true (mem_filter.1 hf).2
    have hlarge : ∀ f ∈ (files.map OrderedArchiveFile.file).filter
        fun f => decide (¬ Small policy f), ¬ Small policy f :=
      fun f hf => of_decide_eq_true (mem_filter.1 hf).2
    have happ := contentsFrom_append hsmall hlarge []
    rw [hfirst.eq_append] at happ
    refine advance_eq_ok_of_planContents h ho ?_ ?_ hdocument
    · rw [happ]
      exact hv
    · rwa [length_append, length_map, length_map]

end Planning

end Riverhog.Upload
