import Riverhog.Upload.PackVolumes
import Riverhog.Upload.PlannerText

/-!
# Planning batch by batch

The planner can be given the files of a collection in batches; between two batches its
checkpoint is written and read again. The state of the planning loop after some files is
a function of those files (`Reached`): the pending ones are those of the pack in
progress (`openPack`). A batch resumes where the loop stood (`advance_append`), so the
batches plan what one call plans, as long as every checkpoint in between can be resumed.
-/

namespace Riverhog.Upload

open Core Protocol Pack Json List Except

/-! ## The content identity -/

/-- The files of a content identity, separated by commas. -/
def contentMembers : List ArchiveFile → Bytes
  | [] => []
  | file :: files => contentIdentityMemberBytes file ++
      files.flatMap fun next => 44 :: contentIdentityMemberBytes next

/-- The document that a content identity is the digest of. -/
def contentDocument (files : List ArchiveFile) : Bytes :=
  contentIdentityPrefix ++ contentMembers files ++ contentIdentitySuffix

/-- `collection_content_identity_ordered`. -/
def collectionContentIdentityOrdered (files : List ArchiveFile) : Text :=
  sha256Hex (contentDocument files)

theorem contentMembers_append_singleton (files : List ArchiveFile) (file : ArchiveFile) :
    contentMembers (files ++ [file]) =
      contentMembers files ++ (if files.length = 0 then [] else [44]) ++
        contentIdentityMemberBytes file := by
  cases files with
  | nil => simp [contentMembers]
  | cons first files => simp [contentMembers]

/-! ## The pack in progress -/

/-- What a file does to the pack in progress. -/
def openPackStep (policy : CollectionVolumePolicy) (pending : List ArchiveFile)
    (current : ArchiveFile) : List ArchiveFile :=
  if current.bytes < policy.packMemberBytes then
    if !pending.isEmpty && packFull policy.packFiles policy.packSourceBytes pending current then
      [current]
    else pending ++ [current]
  else []

/-- The files that wait for their pack to fill. -/
def openPack (policy : CollectionVolumePolicy) (files : List ArchiveFile) : List ArchiveFile :=
  files.foldl (openPackStep policy) []

/-- A pack in progress is within the limits of a pack, or it is one file. -/
theorem openPack_limits (policy : CollectionVolumePolicy) (files : List ArchiveFile) :
    (openPack policy files).length ≤ policy.packFiles ∧
      ∀ f ∈ openPack policy files, f.bytes < policy.packMemberBytes := by
  have hpos := policy.positive.2.1
  induction files using reverseRecOn with
  | nil => simp [openPack]
  | append_singleton files f ih =>
    rw [openPack, foldl_append, ← openPack, foldl_cons, foldl_nil, openPackStep]
    split_ifs with hsmall hfull
    · simp only [length_singleton, mem_singleton, forall_eq]
      exact ⟨hpos, hsmall⟩
    · simp only [Bool.and_eq_true, Bool.not_eq_true', isEmpty_eq_false_iff, packFull,
        Bool.or_eq_true, decide_eq_true_eq, not_and, not_or] at hfull
      refine ⟨?_, ?_⟩
      · rw [length_append, length_singleton]
        by_cases hne : openPack policy files = []
        · simp [hne, hpos]
        · have := (hfull hne).1
          omega
      · simp only [mem_append, mem_singleton]
        rintro g (hg | rfl)
        · exact ih.2 g hg
        · exact hsmall
    · simp

/-- The file as the planner uses it: the path is normalised twice. -/
def plannedFile (nfc : Text → Text) (ordered : OrderedArchiveFile) : Py ArchiveFile := do
  let current ← normalizedFile nfc ordered.file
  normalizedFile nfc current

/-! ## The planning loop after some files -/

/-- The state of the planning loop after the files of `planned`. -/
structure PlanProgress.Reached (policy : CollectionVolumePolicy) (planned : List ArchiveFile)
    (s : PlanProgress) : Prop where
  pending : s.pending = openPack policy planned
  nextOrder : s.nextOrder = planned.length
  filesSeen : s.filesSeen = planned.length
  contentDigest : s.contentDigest = .of (contentIdentityPrefix ++ contentMembers planned)

/-- The state with other volumes before those that it emitted. -/
def PlanProgress.after (s : PlanProgress) (volumes : List VolumePlan) : PlanProgress :=
  { s with emitted := volumes ++ s.emitted }

section Loop

variable {nfc : Text → Text} {policy : CollectionVolumePolicy}

variable {current : ArchiveFile} {condition : Bool} {planned : List ArchiveFile}
  {files : List OrderedArchiveFile} {s t : PlanProgress}

/-- A pack is closed when it has a file and the condition holds. -/
theorem flushPack_eq_ok (h : flushPack nfc policy condition s = .ok t) :
    (condition = false ∨ s.pending = []) ∧ t = s ∨ condition = true ∧ ∃ plan,
      planPackVolume nfc s.pending s.nextSequence policy.packMemberBytes
        policy.packPartPlaintextBytes = .ok plan ∧
      t = { s with
        pending := [], nextSequence := s.nextSequence + 1,
        emitted := s.emitted ++ [.pack plan] } := by
  rw [flushPack] at h
  split_ifs at h with hcond
  · exact .inl ⟨by simpa using hcond, (ok.inj h).symm⟩
  · obtain ⟨plan, hplan, h⟩ := bind_eq_ok.1 h
    simp only [Bool.or_eq_true, Bool.not_eq_true', not_or, Bool.not_eq_false] at hcond
    exact .inr ⟨hcond.1, plan, hplan, (ok.inj h).symm⟩

theorem flushPack_pending (h : flushPack nfc policy condition s = .ok t) :
    t.pending = (if condition then [] else s.pending) ∧
      t = { s with pending := t.pending, nextSequence := t.nextSequence, emitted := t.emitted } := by
  obtain ⟨rfl | hnil, rfl⟩ | ⟨rfl, plan, -, rfl⟩ := flushPack_eq_ok h
  · exact ⟨rfl, rfl⟩
  · exact ⟨by rw [hnil, ite_self], rfl⟩
  · exact ⟨rfl, rfl⟩

theorem placeFile_pending (h : placeFile nfc policy current s = .ok t) :
    t.pending = openPackStep policy s.pending current ∧
      t = { s with pending := t.pending, nextSequence := t.nextSequence, emitted := t.emitted } := by
  rw [placeFile] at h
  rw [openPackStep]
  split_ifs at h with hsmall
  · rw [bind_eq_ok] at h
    obtain ⟨u, hu, h⟩ := h
    obtain ⟨hpending, hkeep⟩ := flushPack_pending hu
    obtain rfl := ok.inj h
    refine ⟨?_, by rw [hkeep]⟩
    rw [if_pos hsmall]
    rw [hpending]
    change _ = if (!s.pending.isEmpty && (policy.packFiles ≤ s.pending.length ||
      policy.packSourceBytes < (s.pending.map ArchiveFile.bytes).sum + current.bytes)) = true then
        [current] else s.pending ++ [current]
    generalize (!s.pending.isEmpty && _) = full
    cases full <;> rfl
  · simp only [bind_eq_ok] at h
    obtain ⟨u, hu, planned, -, h⟩ := h
    obtain ⟨hpending, hkeep⟩ := flushPack_pending hu
    obtain rfl := ok.inj h
    exact ⟨by rw [if_neg hsmall]; exact hpending, by rw [hkeep]⟩

variable {c next : IncrementalVolumePlannerCheckpoint} {rest : List OrderedArchiveFile}
  {plans : List RawVolumePlan} {seen : List Text} {maxPlaintextBytes sequence : Nat}
  {ordered : OrderedArchiveFile}

/-- One turn of the loop. -/
theorem PlanProgress.Reached.planFile (hr : s.Reached policy planned)
    (h : planFile nfc policy s ordered = .ok t) :
    ∃ current, plannedFile nfc ordered = .ok current ∧ t.Reached policy (planned ++ [current]) := by
  simp only [Upload.planFile, bind_eq_ok] at h
  obtain ⟨first, hfirst, -, -, current, hcurrent, u, hu, h⟩ := h
  obtain ⟨hpending, hkeep⟩ := placeFile_pending hu
  obtain rfl := ok.inj h
  refine ⟨current, by rw [plannedFile, hfirst, ok_bind, hcurrent], ?_, ?_, ?_, ?_⟩
  · dsimp only at hpending ⊢
    rw [hpending, hr.pending, openPack, openPack, foldl_append]
    rfl
  · rw [hkeep, length_append, length_singleton]
    exact congrArg (· + 1) hr.nextOrder
  · rw [hkeep, length_append, length_singleton]
    exact congrArg (· + 1) hr.filesSeen
  · rw [hkeep, contentMembers_append_singleton]
    rw [hr.filesSeen, hr.contentDigest]
    split_ifs <;> simp

/-- The loop over some files. -/
theorem PlanProgress.Reached.planFiles (hr : s.Reached policy planned)
    (h : files.foldlM (Upload.planFile nfc policy) s = .ok t) :
    ∃ more, files.mapM (plannedFile nfc) = .ok more ∧ t.Reached policy (planned ++ more) := by
  induction files generalizing s planned with
  | nil =>
    obtain rfl := ok.inj h
    exact ⟨[], rfl, by rwa [append_nil]⟩
  | cons o files ih =>
    rw [foldlM_cons, bind_eq_ok] at h
    obtain ⟨u, hu, h⟩ := h
    obtain ⟨current, hcurrent, hreached⟩ := hr.planFile hu
    obtain ⟨more, hmore, hall⟩ := ih hreached h
    refine ⟨current :: more, ?_, ?_⟩
    · rw [mapM_cons, hcurrent, ok_bind, hmore]
      rfl
    · rwa [append_assoc] at hall

/-! ## What the loop emits -/

/-- The emitted volumes are numbered from `start` to the next sequence number. -/
structure PlanProgress.Emits (start : Nat) (s : PlanProgress) : Prop where
  sequences : s.emitted.map VolumePlan.sequence = range' start s.emitted.length
  nextSequence : s.nextSequence = start + s.emitted.length

theorem rawFiles_sequence {files : List ArchiveFile}
    (h : rawFiles maxPlaintextBytes files seen sequence = .ok plans) :
    plans.map RawVolumePlan.sequence = range' sequence plans.length := by
  induction files generalizing seen sequence plans with
  | nil =>
    obtain rfl := ok.inj h
    rfl
  | cons file files ih =>
    simp only [rawFiles, bind_eq_ok] at h
    obtain ⟨-, -, -, -, -, -, segments, hs, rest, hrest, h⟩ := h
    rw [← ok.inj h, map_append, fileSegments_sequence hs, ih hrest, length_append,
      range'_append_1]

theorem planRawVolumes_sequence {files : List ArchiveFile}
    (h : planRawVolumes nfc files sequence maxPlaintextBytes = .ok plans) :
    plans.map RawVolumePlan.sequence = range' sequence plans.length := by
  simp only [planRawVolumes, bind_eq_ok] at h
  obtain ⟨-, -, -, -, normalized, -, h⟩ := h
  exact rawFiles_sequence h

theorem PlanProgress.Emits.flushPack {start : Nat} (he : s.Emits start)
    (h : flushPack nfc policy condition s = .ok t) : t.Emits start := by
  obtain ⟨-, rfl⟩ | ⟨-, plan, hplan, rfl⟩ := flushPack_eq_ok h
  · exact he
  · have hseq : VolumePlan.sequence (.pack plan) = s.nextSequence := planPackVolume_sequence hplan
    refine ⟨?_, ?_⟩
    · dsimp only
      rw [map_append, he.sequences, map_singleton, hseq, he.nextSequence,
        length_append, length_singleton, range'_1_concat]
    · dsimp only
      rw [he.nextSequence, length_append, length_singleton, Nat.add_assoc]

theorem PlanProgress.Emits.placeFile {start : Nat} (he : s.Emits start)
    (h : placeFile nfc policy current s = .ok t) : t.Emits start := by
  rw [Upload.placeFile] at h
  split_ifs at h
  · rw [bind_eq_ok] at h
    obtain ⟨u, hu, h⟩ := h
    obtain ⟨hseq, hnext⟩ := he.flushPack hu
    obtain rfl := ok.inj h
    exact ⟨hseq, hnext⟩
  · simp only [bind_eq_ok] at h
    obtain ⟨u, hu, plans, hplans, h⟩ := h
    obtain ⟨hseq, hnext⟩ := he.flushPack hu
    obtain rfl := ok.inj h
    have hraw : (plans.map VolumePlan.raw).map VolumePlan.sequence =
        range' u.nextSequence plans.length := by
      rw [map_map, ← planRawVolumes_sequence hplans]
      rfl
    refine ⟨?_, ?_⟩
    · dsimp only
      rw [map_append, hseq, hraw, hnext, length_append, length_map, range'_append_1]
    · dsimp only
      rw [hnext, length_append, length_map, Nat.add_assoc]

theorem PlanProgress.Emits.planFile {start : Nat} (he : s.Emits start)
    (h : planFile nfc policy s ordered = .ok t) : t.Emits start := by
  simp only [Upload.planFile, bind_eq_ok] at h
  obtain ⟨first, -, -, -, current, -, u, hu, h⟩ := h
  have hdigest : ∀ digest, { s with contentDigest := digest }.Emits start :=
    fun _ => ⟨he.sequences, he.nextSequence⟩
  have hplaced := (hdigest _).placeFile hu
  rw [← ok.inj h]
  exact ⟨hplaced.sequences, hplaced.nextSequence⟩

theorem PlanProgress.Emits.planFiles {start : Nat} (he : s.Emits start)
    (h : files.foldlM (Upload.planFile nfc policy) s = .ok t) : t.Emits start := by
  induction files generalizing s with
  | nil =>
    obtain rfl := ok.inj h
    exact he
  | cons o files ih =>
    rw [foldlM_cons, bind_eq_ok] at h
    obtain ⟨u, hu, h⟩ := h
    exact ih (he.planFile hu) h

theorem PlanProgress.Emits.sortedBy_eq {start : Nat} (he : s.Emits start) :
    sortedBy VolumePlan.sequence s.emitted = s.emitted := by
  rw [sortedBy_eq_self_iff, ← pairwise_map, he.sequences]
  exact pairwise_le_range'

/-! ## Volumes emitted before do not matter -/

section

variable (volumes : List VolumePlan)

theorem flushPack_after (condition : Bool) (s : PlanProgress) :
    flushPack nfc policy condition (s.after volumes) =
      (flushPack nfc policy condition s).map (·.after volumes) := by
  rw [flushPack, flushPack]
  change (if (!condition || s.pending.isEmpty) = true then _ else _) = _
  split_ifs
  · rfl
  · rw [bind_map]
    simp only [PlanProgress.after, append_assoc]
    rfl

theorem placeFile_after (current : ArchiveFile) (s : PlanProgress) :
    placeFile nfc policy current (s.after volumes) =
      (placeFile nfc policy current s).map (·.after volumes) := by
  rw [placeFile, placeFile]
  split_ifs
  · dsimp only
    rw [flushPack_after, map_bind, bind_map]
    rfl
  · rw [flushPack_after, map_bind, bind_map]
    congr 1
    funext u
    rw [bind_map]
    simp only [PlanProgress.after, append_assoc]
    rfl

theorem planFile_after (ordered : OrderedArchiveFile) (s : PlanProgress) :
    planFile nfc policy (s.after volumes) ordered =
      (planFile nfc policy s ordered).map (·.after volumes) := by
  simp only [planFile, bind_map]
  congr 1
  funext first
  congr 1
  funext u
  congr 1
  funext current
  change (placeFile nfc policy current ({ s with contentDigest := _ }.after volumes) >>= _) = _
  rw [placeFile_after, map_bind]
  rfl

theorem planFiles_after (files : List OrderedArchiveFile) (s : PlanProgress) :
    files.foldlM (planFile nfc policy) (s.after volumes) =
      (files.foldlM (planFile nfc policy) s).map (·.after volumes) := by
  induction files generalizing s with
  | nil => rfl
  | cons o files ih =>
    rw [foldlM_cons, foldlM_cons, planFile_after, map_bind, bind_map]
    congr 1
    funext u
    exact ih u

end

/-! ## One call -/

/-- The state that a call starts from. -/
def IncrementalVolumePlannerCheckpoint.start (c : IncrementalVolumePlannerCheckpoint) :
    PlanProgress :=
  ⟨c.pendingPackFiles, c.nextFileOrder, c.nextSequence, c.filesSeen, c.bytesSeen, c.contentHash, []⟩

/-- The open checkpoint of a state. -/
def PlanProgress.checkpoint (policy : CollectionVolumePolicy) (s : PlanProgress) :
    IncrementalVolumePlannerCheckpoint :=
  ⟨policy, s.contentDigest, s.nextOrder, s.nextSequence, s.filesSeen, s.bytesSeen, s.pending, false,
    none⟩

/-- What a call computes: the order of the emitted volumes needs no sorting, and their numbers pass
the planner's own check. -/
theorem advance_eq_ok_iff {final : Bool} {volumes : List VolumePlan} :
    advanceIncrementalVolumePlan nfc c files final = .ok (next, volumes) ↔
      c.closed = false ∧ ∃ s t, files.foldlM (planFile nfc c.policy) c.start = .ok s ∧
        flushPack nfc c.policy final s = .ok t ∧
        closedIdentity t.contentDigest final = .ok next.contentIdentity ∧
        checkCheckpoint nfc next = .ok () ∧ volumes = t.emitted ∧
        next = ⟨c.policy, t.contentDigest, t.nextOrder, t.nextSequence, t.filesSeen, t.bytesSeen,
          t.pending, final, next.contentIdentity⟩ := by
  have hstart : c.start.Emits c.nextSequence := ⟨rfl, rfl⟩
  have hemits : ∀ s t, files.foldlM (planFile nfc c.policy) c.start = .ok s →
      flushPack nfc c.policy final s = .ok t → t.Emits c.nextSequence :=
    fun s t hs ht => (hstart.planFiles hs).flushPack ht
  simp only [advanceIncrementalVolumePlan, bind_eq_ok, require_eq_ok, Bool.not_eq_true']
  constructor
  · rintro ⟨⟨⟩, hopen, s, hs, t, ht, identity, hidentity, ⟨⟩, hcheck, ⟨⟩, -, h⟩
    obtain ⟨rfl, rfl⟩ := Prod.ext_iff.1 (ok.inj h)
    exact ⟨hopen, s, t, hs, ht, hidentity, hcheck, (hemits s t hs ht).sortedBy_eq, rfl⟩
  · rintro ⟨hopen, s, t, hs, ht, hidentity, hcheck, rfl, hnext⟩
    have he := hemits s t hs ht
    refine ⟨(), hopen, s, hs, t, ht, next.contentIdentity, hidentity, (), ?_, (), ?_, ?_⟩
    · rw [← hnext]
      exact hcheck
    · rw [he.sortedBy_eq, he.sequences, he.nextSequence, Nat.add_sub_cancel_left, beq_self_eq_true]
    · rw [he.sortedBy_eq, ← hnext]
      rfl

/-- A call over two batches is a call over the second from the checkpoint after the first. -/
theorem advance_append (hopen : c.closed = false) {batch : List OrderedArchiveFile}
    {volumes : List VolumePlan} (hs : batch.foldlM (planFile nfc c.policy) c.start = .ok s) :
    advanceIncrementalVolumePlan nfc c (batch ++ rest) true = .ok (next, volumes) ↔
      ∃ more, advanceIncrementalVolumePlan nfc (s.checkpoint c.policy) rest true =
        .ok (next, more) ∧ volumes = s.emitted ++ more := by
  have hstate : s = (s.checkpoint c.policy).start.after s.emitted := by
    rw [PlanProgress.after, IncrementalVolumePlannerCheckpoint.start, PlanProgress.checkpoint,
      append_nil]
  have hfold : ∀ t, (batch ++ rest).foldlM (planFile nfc c.policy) c.start = .ok t ↔
      ∃ u, rest.foldlM (planFile nfc c.policy) (s.checkpoint c.policy).start = .ok u ∧
        t = u.after s.emitted := by
    intro t
    rw [foldlM_append, hs, ok_bind]
    conv_lhs => rw [hstate]
    rw [planFiles_after, map_eq_ok]
    simp only [eq_comm]
  have hflush : ∀ u v, flushPack nfc c.policy true (u.after s.emitted) = .ok v ↔
      ∃ w, flushPack nfc c.policy true u = .ok w ∧ v = w.after s.emitted := by
    intro u v
    rw [flushPack_after, map_eq_ok]
    simp only [eq_comm]
  simp only [advance_eq_ok_iff, hopen, true_and]
  constructor
  · rintro ⟨t, v, ht, hv, hidentity, hcheck, rfl, hnext⟩
    obtain ⟨u, hu, rfl⟩ := (hfold t).1 ht
    obtain ⟨w, hw, rfl⟩ := (hflush u v).1 hv
    exact ⟨w.emitted, ⟨rfl, u, w, hu, hw, hidentity, hcheck, rfl, hnext⟩, rfl⟩
  · rintro ⟨more, ⟨-, u, w, hu, hw, hidentity, hcheck, rfl, hnext⟩, rfl⟩
    exact ⟨u.after s.emitted, w.after s.emitted, (hfold _).2 ⟨u, hu, rfl⟩,
      (hflush _ _).2 ⟨w, hw, rfl⟩, hidentity, hcheck, rfl, hnext⟩

/-! ## The pack in progress is planned in the end -/

theorem flushPack_packed (h : flushPack nfc policy condition s = .ok t) :
    s.nextSequence ≤ t.nextSequence ∧ (s.pending = [] ∨ condition = false ∨
      ∃ (sequence : Nat) (plan : _), planPackVolume nfc s.pending sequence policy.packMemberBytes
        policy.packPartPlaintextBytes = .ok plan) := by
  obtain ⟨hkept, rfl⟩ | ⟨-, plan, hplan, rfl⟩ := flushPack_eq_ok h
  · exact ⟨le_rfl, hkept.symm.imp_right .inl⟩
  · exact ⟨Nat.le_succ _, .inr (.inr ⟨s.nextSequence, plan, hplan⟩)⟩

theorem placeFile_packed (h : placeFile nfc policy current s = .ok t) :
    s.nextSequence ≤ t.nextSequence ∧ (s.pending = [] ∨ t.pending = s.pending ++ [current] ∨
      ∃ (sequence : Nat) (plan : _), planPackVolume nfc s.pending sequence policy.packMemberBytes
        policy.packPartPlaintextBytes = .ok plan) := by
  rw [placeFile] at h
  split_ifs at h
  · rw [bind_eq_ok] at h
    obtain ⟨u, hu, h⟩ := h
    obtain ⟨hle, hpacked⟩ := flushPack_packed hu
    obtain ⟨hpending, -⟩ := flushPack_pending hu
    rw [← ok.inj h]
    refine ⟨hle, hpacked.imp_right (Or.imp_left fun hopen => ?_)⟩
    rw [hopen] at hpending
    exact congrArg (· ++ [current]) hpending
  · simp only [bind_eq_ok] at h
    obtain ⟨u, hu, plans, -, h⟩ := h
    obtain ⟨hle, hpacked⟩ := flushPack_packed hu
    rw [← ok.inj h]
    exact ⟨hle.trans (Nat.le_add_right _ _), hpacked.imp_right fun h => .inr (h.resolve_left (by simp))⟩

/-- Every sequence number is below the last one, and pending files are the first ones of a pack that
is planned later. -/
theorem pending_packed {u : PlanProgress} (hf : files.foldlM (planFile nfc policy) s = .ok t)
    (hu : flushPack nfc policy true t = .ok u) :
    s.nextSequence ≤ u.nextSequence ∧ (s.pending = [] ∨
      ∃ more, ∃ (sequence : Nat) (plan : _), planPackVolume nfc (s.pending ++ more) sequence
        policy.packMemberBytes policy.packPartPlaintextBytes = .ok plan) := by
  induction files generalizing s with
  | nil =>
    obtain rfl := ok.inj hf
    obtain ⟨hle, hpacked⟩ := flushPack_packed hu
    refine ⟨hle, hpacked.imp_right fun h => ?_⟩
    obtain ⟨sequence, plan, hplan⟩ := h.resolve_left (by simp)
    exact ⟨[], sequence, plan, by rwa [append_nil]⟩
  | cons o files ih =>
    rw [foldlM_cons, bind_eq_ok] at hf
    obtain ⟨v, hv, hf⟩ := hf
    obtain ⟨hle, hpacked⟩ := ih hf
    simp only [planFile, bind_eq_ok] at hv
    obtain ⟨first, -, -, -, current, -, w, hw, hv⟩ := hv
    obtain ⟨hwle, hwpacked⟩ := placeFile_packed hw
    rw [← ok.inj hv] at hle hpacked
    refine ⟨hwle.trans hle, ?_⟩
    rcases hwpacked with hnil | hopen | ⟨sequence, plan, hplan⟩
    · exact .inl hnil
    · -- the pack stays open, so the same pack is planned later
      rw [hopen] at hpacked
      obtain ⟨more, sequence, plan, hplan⟩ := hpacked.resolve_left (by simp)
      rw [append_assoc] at hplan
      exact .inr ⟨_, sequence, plan, hplan⟩
    · exact .inr ⟨[], sequence, plan, by rwa [append_nil]⟩

/-- Files that begin a planned pack pass the checks of a checkpoint. -/
theorem checkPending_of_normalizeEach {files more out : List ArchiveFile}
    (h : normalizeEach nfc policy.packMemberBytes (files ++ more) seen = .ok out) :
    checkPending nfc policy files seen = .ok (files.map ArchiveFile.bytes).sum := by
  induction files generalizing seen out with
  | nil => rfl
  | cons f files ih =>
    simp only [cons_append, normalizeEach, bind_eq_ok, require_eq_ok] at h
    obtain ⟨path, hpath, -, hres, -, hseen, -, hbytes, -, hsha, rest, hrest, -⟩ := h
    have hnormal : normalizedFile nfc f = .ok { f with path := path } := by
      simp only [normalizedFile, bind_eq_ok, require_eq_ok]
      exact ⟨path, hpath, (), hres, (), hsha, rfl⟩
    simp only [checkPending, bind_eq_ok, require_eq_ok]
    refine ⟨_, hnormal, (), hseen, (), ?_, _, ih hrest, ?_⟩
    · simpa using hbytes
    · rw [map_cons, sum_cons]
      rfl

/-- The checkpoint between two batches passes its checks exactly when the files of the pack in
progress are within the byte limit; everything else is as the call that ends the plan needs it. -/
theorem checkCheckpoint_iff (hr : s.Reached policy planned)
    {result : IncrementalVolumePlannerCheckpoint × List VolumePlan}
    (h : advanceIncrementalVolumePlan nfc (s.checkpoint policy) rest true = .ok result) :
    checkCheckpoint nfc (s.checkpoint policy) = .ok () ↔
      ((openPack policy planned).map ArchiveFile.bytes).sum ≤ policy.packSourceBytes := by
  obtain ⟨next, volumes⟩ := result
  obtain ⟨-, t, u, ht, hu, -, hcheck, -, hnext⟩ := advance_eq_ok_iff.1 h
  obtain ⟨hle, hpacked⟩ := pending_packed ht hu
  change s.pending = [] ∨ ∃ more, ∃ (sequence : Nat) (plan : _), planPackVolume nfc
    (s.pending ++ more) sequence policy.packMemberBytes policy.packPartPlaintextBytes =
      .ok plan at hpacked
  have hlast : u.nextSequence < 2 ^ 256 := by
    rw [hnext] at hcheck
    simp only [checkCheckpoint, bind_eq_ok, require_eq_ok, decide_eq_true_eq] at hcheck
    obtain ⟨-, -, -, hlt, -⟩ := hcheck
    exact hlt
  have hpending : checkPending nfc policy s.pending [] =
      .ok (s.pending.map ArchiveFile.bytes).sum := by
    rcases hpacked with hnil | ⟨more, sequence, plan, hplan⟩
    · rw [hnil]
      rfl
    · simp only [planPackVolume, normalizedFiles, bind_eq_ok] at hplan
      obtain ⟨_, ⟨_, _, out, hout, _⟩, _⟩ := hplan
      exact checkPending_of_normalizeEach hout
  have hcount := (openPack_limits policy planned).1
  rw [← hr.pending] at hcount ⊢
  simp only [checkCheckpoint, PlanProgress.checkpoint, bind_eq_ok, require_eq_ok, hpending,
    decide_eq_true_eq, hr.nextOrder, hr.filesSeen]
  simp only [beq_self_eq_true, hcount, ok.injEq, Bool.not_false, Bool.true_or,
    exists_const, exists_eq_left', true_and, and_true, and_iff_right_iff_imp]
  exact fun _ => hle.trans_lt hlast

end Loop

/-! ## Batches -/

/-- The files planned in batches: after every batch but the last the checkpoint is written and read
again, and the last one ends the plan. -/
def planBatches (nfc : Text → Text) (c : IncrementalVolumePlannerCheckpoint) :
    List (List OrderedArchiveFile) → List OrderedArchiveFile →
      Py (IncrementalVolumePlannerCheckpoint × List VolumePlan)
  | [], last => advanceIncrementalVolumePlan nfc c last true
  | batch :: batches, last => do
    let (next, volumes) ← advanceIncrementalVolumePlan nfc c batch false
    let next ← next.resume nfc
    let (final, more) ← planBatches nfc next batches last
    return (final, volumes ++ more)

/-- The checkpoint after the files of `planned` can be written and read again: the pack in progress
is within the byte limit, and its paths are canonical. -/
def Resumable (nfc : Text → Text) (policy : CollectionVolumePolicy) (planned : List ArchiveFile) :
    Prop :=
  ((openPack policy planned).map ArchiveFile.bytes).sum ≤ policy.packSourceBytes ∧
    ∀ f ∈ openPack policy planned, Canonical nfc f

/-- The checkpoint after each of the batches, which follow the files of `planned`, is resumable. -/
def CutsResumable (nfc : Text → Text) (policy : CollectionVolumePolicy)
    (planned : List ArchiveFile) (batches : List (List OrderedArchiveFile)) : Prop :=
  ∀ first rest, batches = first ++ rest → first ≠ [] →
    ∀ more, first.flatten.mapM (plannedFile nfc) = .ok more → Resumable nfc policy (planned ++ more)

section Batches

variable {nfc : Text → Text} {policy : CollectionVolumePolicy}

theorem cutsResumable_nil (planned : List ArchiveFile) : CutsResumable nfc policy planned [] := by
  rintro first rest hsplit hne
  exact absurd (append_eq_nil_iff.1 hsplit.symm).1 hne

variable {planned : List ArchiveFile} {volumes : List VolumePlan}

variable {final : IncrementalVolumePlannerCheckpoint} {batches : List (List OrderedArchiveFile)}
  {batch : List OrderedArchiveFile}

theorem cutsResumable_cons {more : List ArchiveFile}
    (hm : batch.mapM (plannedFile nfc) = .ok more) :
    CutsResumable nfc policy planned (batch :: batches) ↔ Resumable nfc policy (planned ++ more) ∧
        CutsResumable nfc policy (planned ++ more) batches := by
  constructor
  · intro h
    refine ⟨h [batch] batches rfl (by simp) more (by simpa using hm), ?_⟩
    intro first rest hsplit _ others hothers
    have hflat : (batch :: first).flatten.mapM (plannedFile nfc) = .ok (more ++ others) := by
      rw [flatten_cons, mapM_append, hm, hothers]
      rfl
    rw [append_assoc]
    exact h (batch :: first) rest (by rw [hsplit, cons_append]) (by simp) _ hflat
  · rintro ⟨hone, hmore⟩ first rest hsplit hne others hothers
    obtain ⟨b, first, rfl⟩ := exists_cons_of_ne_nil hne
    rw [cons_append, cons.injEq] at hsplit
    obtain ⟨rfl, hsplit⟩ := hsplit
    rw [flatten_cons, mapM_append, hm, ok_bind, bind_eq_ok] at hothers
    obtain ⟨next, hnext, hothers⟩ := hothers
    rw [← ok.inj hothers, ← append_assoc]
    by_cases hfirst : first = []
    · rw [hfirst, flatten_nil, mapM_nil] at hnext
      rw [← ok.inj hnext, append_nil]
      exact hone
    · exact hmore first rest hsplit hfirst next hnext

/-- The state that a checkpoint resumes. -/
theorem PlanProgress.Reached.start {s : PlanProgress} (hr : s.Reached policy planned) :
    (s.checkpoint policy).start.Reached policy planned :=
  ⟨hr.pending, hr.nextOrder, hr.filesSeen, hr.contentDigest⟩

/-- A call that does not end the plan. -/
theorem advance_open_iff {c next : IncrementalVolumePlannerCheckpoint} (hopen : c.closed = false) :
    advanceIncrementalVolumePlan nfc c batch false = .ok (next, volumes) ↔
      ∃ s, batch.foldlM (planFile nfc c.policy) c.start = .ok s ∧ next = s.checkpoint c.policy ∧
        volumes = s.emitted ∧ checkCheckpoint nfc (s.checkpoint c.policy) = .ok () := by
  have hflush : ∀ s t, flushPack nfc c.policy false s = .ok t ↔ t = s := by
    intro s t
    rw [flushPack]
    exact ⟨fun h => (ok.inj h).symm, fun h => by rw [h]; rfl⟩
  simp only [advance_eq_ok_iff, hopen, hflush, closedIdentity]
  constructor
  · rintro ⟨-, s, t, hs, rfl, hidentity, hcheck, rfl, hnext⟩
    have hnone : next.contentIdentity = none := (ok.inj hidentity).symm
    rw [hnone] at hnext
    exact ⟨t, hs, hnext, rfl, by rwa [hnext] at hcheck⟩
  · rintro ⟨s, hs, rfl, rfl, hcheck⟩
    exact ⟨trivial, s, s, hs, rfl, rfl, hcheck, rfl, rfl⟩

/-- Batches plan what one call over all their files plans exactly when every checkpoint in between
can be resumed. -/
theorem planBatches_eq_ok_iff {last : List OrderedArchiveFile} {s : PlanProgress}
    (hr : s.Reached policy planned) :
    planBatches nfc (s.checkpoint policy) batches last = .ok (final, volumes) ↔
      advanceIncrementalVolumePlan nfc (s.checkpoint policy) (batches.flatten ++ last) true =
        .ok (final, volumes) ∧ CutsResumable nfc policy planned batches := by
  induction batches generalizing s planned volumes with
  | nil =>
    rw [planBatches, flatten_nil, nil_append, and_iff_left (cutsResumable_nil _)]
  | cons batch batches ih =>
    rw [flatten_cons, append_assoc]
    simp only [planBatches, bind_eq_ok]
    constructor
    · rintro ⟨⟨next, emitted⟩, hbatch, next', hresume, ⟨final', more⟩, hrest, h⟩
      obtain ⟨rfl, rfl⟩ := Prod.ext_iff.1 (ok.inj h)
      obtain ⟨t, ht, rfl, rfl, -⟩ := (advance_open_iff rfl).1 hbatch
      obtain ⟨others, hothers, hreached⟩ := hr.start.planFiles ht
      obtain ⟨rfl, hcheck, hcanonical⟩ :=
        (IncrementalVolumePlannerCheckpoint.resume_eq_ok_iff hreached.contentDigest rfl rfl).1 hresume
      obtain ⟨hwhole, hcuts⟩ := (ih hreached).1 hrest
      refine ⟨(advance_append rfl ht).2 ⟨more, hwhole, rfl⟩, ?_⟩
      rw [cutsResumable_cons hothers]
      refine ⟨⟨(checkCheckpoint_iff hreached hwhole).1 hcheck, ?_⟩, hcuts⟩
      rw [← hreached.pending]
      exact hcanonical
    · rintro ⟨hwhole, hcuts⟩
      obtain ⟨-, u, -, hu, -⟩ := advance_eq_ok_iff.1 hwhole
      rw [foldlM_append, bind_eq_ok] at hu
      obtain ⟨t, ht, -⟩ := hu
      obtain ⟨others, hothers, hreached⟩ := hr.start.planFiles ht
      rw [cutsResumable_cons hothers] at hcuts
      obtain ⟨⟨hbytes, hcanonical⟩, hcuts⟩ := hcuts
      obtain ⟨more, hmore, rfl⟩ := (advance_append rfl ht).1 hwhole
      have hcheck := (checkCheckpoint_iff hreached hmore).2 hbytes
      have hresume := (IncrementalVolumePlannerCheckpoint.resume_eq_ok_iff
        hreached.contentDigest rfl rfl).2 ⟨rfl, hcheck, by rwa [← hreached.pending] at hcanonical⟩
      exact ⟨_, (advance_open_iff rfl).2 ⟨t, ht, rfl, rfl, hcheck⟩, _, hresume, _,
        (ih hreached).2 ⟨hmore, hcuts⟩, rfl⟩

/-- The state of a new planner. -/
theorem reached_new (policy : CollectionVolumePolicy) :
    (newIncrementalVolumePlanner policy).start.Reached policy [] := by
  refine ⟨rfl, rfl, rfl, ?_⟩
  change CheckpointSHA256.new.update contentIdentityPrefix = _
  rw [CheckpointSHA256.new_eq, CheckpointSHA256.update_of, contentMembers, append_nil]
  rfl

/-- The identity of an ended plan is that of the files as they were planned. -/
theorem contentIdentity_eq {files : List OrderedArchiveFile}
    (h : advanceIncrementalVolumePlan nfc (newIncrementalVolumePlanner policy) files true =
      .ok (final, volumes)) (hp : files.mapM (plannedFile nfc) = .ok planned) :
    final.contentIdentity = some (collectionContentIdentityOrdered planned) := by
  obtain ⟨-, s, t, hs, ht, hidentity, -⟩ := advance_eq_ok_iff.1 h
  obtain ⟨more, hmore, hreached⟩ := (reached_new policy).planFiles hs
  obtain rfl : more = planned := ok.inj (hmore.symm.trans hp)
  obtain ⟨-, hkeep⟩ := flushPack_pending ht
  have hdigest : t.contentDigest = s.contentDigest := by rw [hkeep]
  simp only [closedIdentity, if_true, bind_eq_ok, hdigest, hreached.contentDigest,
    CheckpointSHA256.update_of] at hidentity
  obtain ⟨identity, hhex, hidentity⟩ := hidentity
  rw [← ok.inj hidentity, CheckpointSHA256.eq_of_hexdigest hhex, nil_append]
  rfl

/-! ## The document of a content identity determines the files -/

section

variable (files : List ArchiveFile)

/-- The document of a content identity as JSON. -/
def contentJson : Json :=
  .obj [("files", .arr (files.map fun f => sortKeys f.toJson)),
    ("format", .str "riverhog-collection-content/v1")]

theorem encodeUtf8_renderItems :
    encodeUtf8 (renderItems true (files.map fun f => sortKeys f.toJson)) =
      (files.flatMap fun next => 44 :: contentIdentityMemberBytes next) ++ encodeUtf8 "]" := by
  induction files with
  | nil => rfl
  | cons f files ih =>
    rw [map_cons, renderItems, cons_append, encodeUtf8_cons, encodeUtf8_append, ih,
      flatMap_cons, append_assoc]
    rfl

theorem contentDocument_eq_render :
    contentDocument files = encodeUtf8 (render true (contentJson files)) := by
  cases files with
  | nil => decide +kernel
  | cons f files =>
    rw [contentDocument, contentMembers, contentJson, map_cons, render, render,
      contentIdentityMemberBytes, dumps]
    have hstem : contentIdentityPrefix =
        encodeUtf8 ('\x7b' :: renderString true "files" ++ [':', '[']) := by
      decide +kernel
    have htail : contentIdentitySuffix = encodeUtf8 "]" ++ encodeUtf8 (renderMembers true
          [("format", .str "riverhog-collection-content/v1")]) := by
      decide +kernel
    rw [hstem, htail]
    simp only [encodeUtf8_cons, encodeUtf8_append, encodeUtf8_nil, encodeUtf8_renderItems,
      append_assoc, cons_append, nil_append]

theorem canonical_contentJson : Json.Canonical (contentJson files) := by
  have hkeys : ["files".toList, "format".toList].Nodup := by decide
  refine ⟨hkeys, ?_⟩
  rw [canonicalMembers_iff]
  intro m hm
  simp only [mem_cons, not_mem_nil, or_false] at hm
  rcases hm with rfl | rfl
  · change Json.CanonicalItems _
    rw [canonicalItems_iff]
    intro item hitem
    obtain ⟨f, -, rfl⟩ := mem_map.1 hitem
    exact canonical_sortKeys _ (IncrementalVolumePlannerCheckpoint.canonical_toJson f)
  · trivial

end

theorem contentDocument_injective : Function.Injective contentDocument := by
  intro files files' h
  rw [contentDocument_eq_render, contentDocument_eq_render] at h
  have hjson := render_injective true (canonical_contentJson files)
    (canonical_contentJson files') (encodeUtf8_injective h)
  simp only [contentJson, obj.injEq, cons.injEq, Prod.mk.injEq, arr.injEq,
    true_and, and_true] at hjson
  exact map_injective_iff.2 (fun f g he => file_eq_of_sortKeys he) hjson

/-- Every file is planned under the path that it is given. -/
theorem mapM_plannedFile_eq_iff {files : List OrderedArchiveFile} :
    files.mapM (plannedFile nfc) = .ok (files.map OrderedArchiveFile.file) ↔
      ∀ o ∈ files, plannedFile nfc o = .ok o.file := by
  rw [mapM_eq_ok_iff, forall₂_map_right_iff, forall₂_same]

/-- A policy whose packs hold one byte, with members of up to nine bytes. -/
def narrowPolicy : CollectionVolumePolicy where
  __ := widePolicy
  packSourceBytes := 1
  packFiles := 10
  packMemberBytes := 10
  positive := by decide
  packParts := by decide
  files := by decide

/-- A file of some size, the first of its collection. -/
def firstFile (bytes : Nat) : OrderedArchiveFile :=
  ⟨0, ⟨"a", bytes, replicate 64 '0'⟩⟩

end Batches

end Riverhog.Upload
