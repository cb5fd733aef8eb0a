import Mathlib.Data.Prod.Lex
import Riverhog.Core.Checkpoint
import Riverhog.Core.Runs
import Riverhog.Protocol.PackIngress

/-!
# Staged sets

The input roots of a claim, its artifacts and the artifacts of a capability are staged in
batches that may be repeated, and then sealed (`append_claim_inputs`,
`append_claim_artifacts` and `append_capability_artifacts` of
`riverhog_core.services.collection_workflows`). The three appends are one loop with its own
checks and texts. An append to a sealed set returns before the batch is compared with what is
staged.
-/

namespace Riverhog.Workflow

open Core Protocol CheckpointSHA256 List

/-- The errors of an append or a seal. -/
inductive StageError where
  | badRequest (message : String)
  | conflict (message : String)
  /-- The claim or capability is not the caller's, not live, or does not receive the set. -/
  | refused
  | python (e : PyError)

/-- The rows of a set, each with its ordinal, and the columns of its owner. -/
structure StagedSet (α : Type) where
  rows : List (α × Nat) := []
  count : Nat := 0
  bytes : Nat := 0
  hashState : Option Text := none
  /-- The identity, set when the set is sealed. -/
  sha256 : Option Text := none

/-- One append call; `live` says that the checks of its owner pass. -/
structure AppendRequest (α : Type) where
  live : Bool
  startOrdinal : Int
  values : List α

/-- A request to a set: an append, or a seal, for which the other checks pass or not. -/
inductive StageStep (α : Type) where
  | append (request : AppendRequest α)
  | sealSet (live planned : Bool)

/-- What distinguishes the three sets. -/
structure SetKind (α : Type) where
  label : String
  retryLabel : String
  domain : String
  /-- The order of a batch. -/
  canonical : List α → Bool
  /-- The checks on an item that is not staged. -/
  check : List α → α → Except StageError Unit
  size : α → Nat
  asDict : α → List (Text × Json)

variable {α : Type}

/-- The staged items. -/
def StagedSet.items (s : StagedSet α) : List α := s.rows.map Prod.fst

/-- A row added at an ordinal. -/
def StagedSet.add (s : StagedSet α) (value : α) (ordinal bytes : Nat) : StagedSet α :=
  { s with
    rows := s.rows ++ [(value, ordinal)]
    count := s.count + 1
    bytes := s.bytes + bytes }

/-- The item at an ordinal. -/
def StagedSet.at (s : StagedSet α) (ordinal : Nat) : Option α :=
  (s.rows.find? (·.2 = ordinal)).map Prod.fst

namespace SetKind

/-- The bytes that every hash of a kind starts with. -/
def header (kind : SetKind α) : Bytes :=
  encodeUtf8 ("riverhog-" ++ kind.domain ++ "/v1").toList ++ [0]

/-- `_set_checkpoint`. -/
def setCheckpoint (kind : SetKind α) : Option Text → Except StageError CheckpointSHA256
  | some state => (fromState state).mapError .python
  | none => .ok (new.update kind.header)

/-- `_checkpoint_item`. -/
def checkpointItem (kind : SetKind α) (checkpoint : CheckpointSHA256) (value : α) :
    CheckpointSHA256 :=
  let encoded := canonicalJsonBytes (.obj (kind.asDict value))
  (checkpoint.update (bigEndian 8 encoded.length)).update encoded

variable [LinearOrder α]

variable (kind : SetKind α)

/-- One round of the loop of an append: the set, the ordinal and the hash. -/
def appendItem (p : StagedSet α × Nat × CheckpointSHA256) (value : α) :
    Except StageError (StagedSet α × Nat × CheckpointSHA256) :=
  if p.2.1 < p.1.count then do
    require (p.1.at p.2.1 = some value)
      (.conflict (kind.retryLabel ++ " retry differs from staged authority"))
    return (p.1, p.2.1 + 1, p.2.2)
  else do
    require (p.1.items.getLast?.all (· < value))
      (.badRequest (kind.label ++ "s must remain canonically ordered across batches"))
    kind.check p.1.items value
    return (p.1.add value p.2.1 (kind.size value), p.2.1 + 1, kind.checkpointItem p.2.2 value)

/-- The part of an append after its checks on an unsealed set. -/
def appendBatch (request : AppendRequest α) (s : StagedSet α) :
    Except StageError (StagedSet α) := do
  require (0 ≤ request.startOrdinal ∧ request.startOrdinal ≤ s.count)
    (.conflict "append ordinal is outside the staged authority")
  let checkpoint ← kind.setCheckpoint s.hashState
  let p ← request.values.foldlM kind.appendItem (s, request.startOrdinal.toNat, checkpoint)
  return { p.1 with hashState := some p.2.2.exportState }

/-- An append call. -/
def append (request : AppendRequest α) (s : StagedSet α) :
    Except StageError (StagedSet α) := do
  require (1 ≤ request.values.length ∧ request.values.length ≤ 128)
    (.badRequest (kind.label ++ " batch must contain 1 to 128 items"))
  require (kind.canonical request.values)
    (.badRequest (kind.label ++ "s must be unique and canonically ordered"))
  require request.live .refused
  if s.sha256.isSome then return s else kind.appendBatch request s

/-- A seal call; the write-output capability is also compared with the plan of its claim. -/
def sealSet (live planned : Bool) (s : StagedSet α) :
    Except StageError (StagedSet α) := do
  require live .refused
  if s.sha256.isSome then return s else do
    require (1 ≤ s.count ∧ s.hashState.isSome) (.conflict (kind.retryLabel ++ " authority is empty"))
    require planned (.conflict "write-output capability differs from the sealed artifact plan")
    let checkpoint ← kind.setCheckpoint s.hashState
    let sha256 ← checkpoint.hexdigest.mapError .python
    return { s with sha256 := some sha256 }

/-- A request to a set. -/
def call (s : StagedSet α) : StageStep α → Except StageError (StagedSet α)
  | .append request => kind.append request s
  | .sealSet live planned => kind.sealSet live planned s

/-- A call that raises changes nothing. -/
def step (s : StagedSet α) (i : StageStep α) : StagedSet α :=
  match kind.call s i with
  | .ok next => next
  | .error _ => s

end SetKind

/-! ## The three sets -/

/-- `CollectionRootIdentity`. -/
structure CollectionRootIdentity where
  collectionId : Nat
  archiveRootSha256 : Text
  contentIdentity : Text
  deriving DecidableEq

/-- The dataclass order: field by field. -/
instance : LinearOrder CollectionRootIdentity :=
  LinearOrder.lift' (fun r => toLex (r.collectionId, toLex (r.archiveRootSha256, r.contentIdentity)))
    fun a b h => by
      obtain ⟨⟩ := a
      obtain ⟨⟩ := b
      simpa using h

/-- `CollectionArtifactIdentity`. -/
structure CollectionArtifactIdentity where
  collection : CollectionRootIdentity
  path : Text
  bytes : Nat
  sha256 : Text
  deriving DecidableEq

/-- The dataclass order: field by field. -/
instance : LinearOrder CollectionArtifactIdentity :=
  LinearOrder.lift' (fun a => toLex (a.collection, toLex (a.path, toLex (a.bytes, a.sha256))))
    fun a b h => by
      obtain ⟨⟩ := a
      obtain ⟨⟩ := b
      simpa using h

/-- `CollectionRootIdentity.as_dict`. -/
def CollectionRootIdentity.asDict (r : CollectionRootIdentity) : List (Text × Json) :=
  [("collection_id", .nat r.collectionId), ("archive_root_sha256", .str r.archiveRootSha256),
    ("content_identity", .str r.contentIdentity)]

/-- `CollectionArtifactIdentity.as_dict`. -/
def CollectionArtifactIdentity.asDict (a : CollectionArtifactIdentity) : List (Text × Json) :=
  [("collection", .obj a.collection.asDict), ("path", .str a.path),
    ("bytes", .nat a.bytes), ("sha256", .str a.sha256)]

/-- `append_claim_inputs`; `root` is the catalog's identity of a collection. -/
def claimInputs (root : Nat → Option CollectionRootIdentity) : SetKind CollectionRootIdentity where
  label := "input root"
  retryLabel := "input-root"
  domain := "claim-inputs"
  canonical values := sortedBy id values = values ∧ (values.map (·.collectionId)).Nodup
  check staged value := do
    require (value.collectionId ∉ staged.map (·.collectionId))
      (.conflict "input collection is already staged")
    require (root value.collectionId = some value)
      (.conflict "input collection root differs from the claimed identity")
  size _ := 0
  asDict := CollectionRootIdentity.asDict

/-- The artifacts of a claim or a capability; `valid` is `_validate_claim_artifacts`. -/
def artifacts (label : String) (valid : CollectionArtifactIdentity → Except StageError Unit) :
    SetKind CollectionArtifactIdentity where
  label := label
  retryLabel := label
  domain := "claim-artifacts"
  canonical values := sortedBy id values = values
  check staged value := do
    valid value
    require ((value.collection.collectionId, value.path) ∉
        staged.map fun a => (a.collection.collectionId, a.path))
      (.conflict (label ++ " is already staged"))
  size := CollectionArtifactIdentity.bytes
  asDict := CollectionArtifactIdentity.asDict

/-- `append_claim_artifacts`. -/
def claimArtifacts := artifacts "artifact"

/-- `append_capability_artifacts`. -/
def capabilityArtifacts := artifacts "capability artifact"

/-! ## What an accepted batch does -/

/-- The bytes that a set commits to. -/
def SetKind.message (kind : SetKind α) (items : List α) : Bytes :=
  kind.header ++ items.flatMap fun value =>
    let encoded := canonicalJsonBytes (.obj (kind.asDict value))
    bigEndian 8 encoded.length ++ encoded

/-- Ordinals, counters and order are those of the staged list. -/
structure StagedSet.Counted [LinearOrder α] (kind : SetKind α) (s : StagedSet α) : Prop where
  ordinals : s.rows = s.items.zipIdx
  count : s.count = s.items.length
  bytes : s.bytes = (s.items.map kind.size).sum
  increasing : s.items.Pairwise (· < ·)

/-- The running hash and the identity are the commitment to the staged list as well. -/
structure StagedSet.Exact [LinearOrder α] (kind : SetKind α) (s : StagedSet α) : Prop
    extends s.Counted kind where
  hash : kind.setCheckpoint s.hashState = .ok (.of (kind.message s.items))
  identity : ∀ sha256 ∈ s.sha256, sha256 = sha256Hex (kind.message s.items)

/-- A batch was merged into a list at an ordinal: the new list starts with the old one and has the
batch at its ordinals, and nothing else. -/
structure Merged (start : Nat) (batch old new : List α) : Prop where
  inside : start ≤ old.length
  grown : old <+: new
  placed : new.take (start + batch.length) = old.take start ++ batch
  length : new.length = max old.length (start + batch.length)

theorem Merged.agrees {start : Nat} {batch old new : List α}
    (h : Merged start batch old new) {n : Nat} (hn : n < batch.length)
    (hold : start + n < old.length) : old[start + n]? = batch[n]? := by
  obtain ⟨rest, rfl⟩ := h.grown
  have hplaced := congrArg (·[start + n]?) h.placed
  have hstart : (old.take start).length = start := by simp [h.inside]
  simp only [getElem?_take_of_lt (Nat.add_lt_add_left hn start)] at hplaced
  rw [getElem?_append_left hold, getElem?_append_right (by omega), hstart,
    Nat.add_sub_cancel_left] at hplaced
  exact hplaced

theorem Merged.prefix_of_part {start : Nat} {batch old new list : List α}
    (h : Merged start batch old new) (hold : old <+: list)
    (hpart : batch = (list.drop start).take batch.length) : new <+: list := by
  have htake : old.take start = list.take start := by
    rw [prefix_iff_eq_take.1 hold, take_take, Nat.min_eq_left h.inside]
  have hplaced : new.take (start + batch.length) <+: list := by
    rw [h.placed, htake, hpart, ← take_add]
    exact take_prefix _ _
  by_cases hle : start + batch.length ≤ old.length
  · rw [← h.grown.eq_of_length (by rw [h.length]; omega)]
    exact hold
  · rwa [take_of_length_le (by rw [h.length]; omega)] at hplaced

theorem find?_zipIdx (items : List α) (k n : Nat) (h : k ≤ n) :
    ((items.zipIdx k).find? (·.2 = n)).map Prod.fst = items[n - k]? := by
  induction items generalizing k with
  | nil => rfl
  | cons item items ih =>
    rw [zipIdx_cons, find?_cons]
    by_cases heq : k = n
    · simp [heq]
    · obtain ⟨m, hm⟩ : ∃ m, n - k = m + 1 := ⟨n - k - 1, by omega⟩
      have hnext : n - (k + 1) = m := by omega
      simp only [heq, decide_false, hm, getElem?_cons_succ]
      rw [ih (k + 1) (by omega), hnext]

theorem setCheckpoint_exportState (kind : SetKind α) (m : Bytes) :
    kind.setCheckpoint (some (of m).exportState) = .ok (.of m) := by
  rw [SetKind.setCheckpoint, fromState_exportState]
  rfl

theorem checkpointItem_of (kind : SetKind α) (items : List α) (value : α) :
    kind.checkpointItem (.of (kind.message items)) value = .of (kind.message (items ++ [value])) := by
  simp [SetKind.checkpointItem, SetKind.message]

@[simp] theorem StagedSet.items_add (s : StagedSet α) (value : α) (ordinal bytes : Nat) :
    (s.add value ordinal bytes).items = s.items ++ [value] := by
  simp [StagedSet.items, StagedSet.add]

variable [LinearOrder α] {kind : SetKind α} {s s' : StagedSet α} {start : Nat} {done : List α}
  {value : α}

theorem StagedSet.Counted.at_eq (h : s.Counted kind) (ordinal : Nat) :
    s.at ordinal = s.items[ordinal]? := by
  unfold StagedSet.at
  rw [h.ordinals]
  exact find?_zipIdx s.items 0 ordinal (Nat.zero_le _)

theorem StagedSet.Counted.add (h : s.Counted kind)
    (hlast : s.items.getLast?.all (· < value) = true) :
    (s.add value s.items.length (kind.size value)).Counted kind := by
  refine ⟨?_, ?_, ?_, ?_⟩
  · rw [items_add, zipIdx_append, ← h.ordinals]
    simp [StagedSet.add]
  · rw [items_add, length_append, ← h.count]
    rfl
  · rw [items_add, map_append, sum_append, ← h.bytes]
    simp [StagedSet.add]
  · rw [items_add]
    refine pairwise_append.2 ⟨h.increasing, pairwise_singleton _ _, ?_⟩
    rintro item hitem _ hvalue
    rw [mem_singleton.1 hvalue]
    obtain ⟨init, last, hitems⟩ := eq_nil_or_concat' s.items
      |>.resolve_left (ne_nil_of_mem hitem)
    have hincreasing := h.increasing
    rw [hitems] at hlast hitem hincreasing
    have hlt : last < value := by simpa using hlast
    rcases mem_append.1 hitem with hinit | heq
    · have hle := (pairwise_append.1 hincreasing).2.2 item hinit last mem_cons_self
      exact hle.trans hlt
    · rwa [mem_singleton.1 heq]

/-- The loop of an append after some values. -/
structure Appended (kind : SetKind α) (s : StagedSet α) (start : Nat) (done : List α)
    (p : StagedSet α × Nat × CheckpointSHA256) : Prop where
  counted : p.1.Counted kind
  hash : p.2.2 = .of (kind.message p.1.items)
  ordinal : p.2.1 = start + done.length
  merged : Merged start done s.items p.1.items
  identity : p.1.sha256 = s.sha256

/-- One round replays a staged item or adds the next one. -/
theorem Appended.item {p p' : StagedSet α × Nat × CheckpointSHA256}
    (h : Appended kind s start done p) (hitem : kind.appendItem p value = .ok p') :
    Appended kind s start (done ++ [value]) p' := by
  obtain ⟨q, ordinal, checkpoint⟩ := p
  obtain ⟨hcounted, hhash, hordinal, ⟨hinside, hgrown, hplaced, hlength⟩, hidentity⟩ := h
  dsimp only at hcounted hhash hordinal hgrown hplaced hlength hidentity
  subst hhash hordinal
  have hcount := hcounted.count
  have hdone : start + (done ++ [value]).length = start + done.length + 1 := by simp [Nat.add_assoc]
  unfold SetKind.appendItem at hitem
  split at hitem
  · rename_i hlt
    simp only [bind_eq_ok, require_eq_ok, decide_eq_true_iff] at hitem
    obtain ⟨_, hat, hp'⟩ := hitem
    cases hp'
    rw [hcounted.at_eq] at hat
    refine ⟨hcounted, rfl, hdone.symm, ⟨hinside, hgrown, ?_, ?_⟩, hidentity⟩
    · rw [hdone, take_add_one, hplaced, hat, append_assoc]
      rfl
    · rw [hdone]
      dsimp only at hlt ⊢
      omega
  · rename_i hge
    simp only [bind_eq_ok, require_eq_ok] at hitem
    obtain ⟨_, hlast, _, _, hp'⟩ := hitem
    cases hp'
    have hend : start + done.length = q.items.length := by
      dsimp only at hge
      omega
    refine ⟨hend ▸ hcounted.add hlast, ?_, hdone.symm, ⟨hinside, ?_, ?_, ?_⟩, hidentity⟩
    · rw [checkpointItem_of, StagedSet.items_add]
    · rw [StagedSet.items_add]
      exact hgrown.trans (prefix_append _ _)
    · rw [StagedSet.items_add, hdone, hend, take_of_length_le (by simp), ← append_assoc,
        ← hplaced, hend, take_length]
    · rw [StagedSet.items_add, hdone, length_append]
      simp only [length_singleton]
      omega

theorem Appended.batch {values : List α} {p p' : StagedSet α × Nat × CheckpointSHA256}
    (h : Appended kind s start done p) (hloop : values.foldlM kind.appendItem p = .ok p') :
    Appended kind s start (done ++ values) p' := by
  induction values generalizing done p with
  | nil =>
    cases hloop
    rwa [append_nil]
  | cons value values ih =>
    obtain ⟨next, hitem, hrest⟩ := bind_eq_ok.1 hloop
    rw [append_cons]
    exact ih (h.item hitem) hrest

/-- A batch that an unsealed set accepts is merged into it, and the set stays exact. -/
theorem append_spec (hs : s.Exact kind) (hopen : s.sha256 = none) {request : AppendRequest α}
    (h : kind.append request s = .ok s') :
    s'.Exact kind ∧ s'.sha256 = none
      ∧ Merged request.startOrdinal.toNat request.values s.items s'.items := by
  simp only [SetKind.append, bind_eq_ok, hopen, Option.isSome_none, Bool.false_eq_true, if_false,
    SetKind.appendBatch, hs.hash, require_eq_ok, decide_eq_true_iff] at h
  obtain ⟨_, -, _, -, _, -, _, hstart, _, hcheckpoint, p, hloop, hs'⟩ := h
  cases hcheckpoint
  cases hs'
  have hcount := hs.count
  have hnil : Appended kind s request.startOrdinal.toNat []
      (s, request.startOrdinal.toNat, .of (kind.message s.items)) :=
    ⟨hs.toCounted, rfl, rfl, ⟨by omega, prefix_rfl, by simp, by simp; omega⟩, rfl⟩
  obtain ⟨hcounted, hhash, -, hmerged, hidentity⟩ := hnil.batch hloop
  have hunsealed : p.1.sha256 = none := hidentity.trans hopen
  refine ⟨⟨⟨hcounted.1, hcounted.2, hcounted.3, hcounted.4⟩, ?_, ?_⟩, hunsealed, hmerged⟩
  · rw [hhash]
    exact setCheckpoint_exportState kind _
  · intro sha256 hsha256
    rw [hunsealed] at hsha256
    cases hsha256

theorem append_sealed (h : s.sha256.isSome) {request : AppendRequest α}
    (hs' : kind.append request s = .ok s') : s' = s := by
  simp only [SetKind.append, bind_eq_ok, if_pos h] at hs'
  obtain ⟨_, -, _, -, _, -, hs'⟩ := hs'
  exact (Except.ok.inj hs').symm

theorem sealSet_spec (hs : s.Exact kind) {live planned : Bool}
    (h : kind.sealSet live planned s = .ok s') :
    s' = s ∨ s.sha256 = none ∧ s' = { s with sha256 := some (sha256Hex (kind.message s.items)) } := by
  simp only [SetKind.sealSet, bind_eq_ok] at h
  obtain ⟨_, -, h⟩ := h
  split at h
  · exact .inl (Except.ok.inj h).symm
  · rename_i hopen
    simp only [bind_eq_ok, hs.hash] at h
    obtain ⟨_, -, _, -, _, hcheckpoint, sha256, hsha256, h⟩ := h
    cases hcheckpoint
    cases hdigest : (of (kind.message s.items)).hexdigest with
    | error e =>
      rw [hdigest] at hsha256
      cases hsha256
    | ok digest =>
      rw [hdigest] at hsha256
      cases hsha256
      rw [eq_of_hexdigest hdigest] at h
      exact .inr ⟨Option.not_isSome_iff_eq_none.1 hopen, (Except.ok.inj h).symm⟩

/-- A call that returns keeps the set exact, only adds items, and changes nothing when sealed. -/
theorem call_spec (hs : s.Exact kind) {i : StageStep α} (h : kind.call s i = .ok s') :
    s'.Exact kind ∧ s.items <+: s'.items ∧ (s.sha256.isSome → s' = s) := by
  cases i with
  | append request =>
    cases hopen : s.sha256 with
    | some sha256 =>
      obtain rfl := append_sealed (by rw [hopen]; rfl) h
      exact ⟨hs, prefix_rfl, fun _ => rfl⟩
    | none =>
      obtain ⟨hs', -, hmerged⟩ := append_spec hs hopen h
      exact ⟨hs', hmerged.grown, nofun⟩
  | sealSet live planned =>
    rcases sealSet_spec hs h with rfl | ⟨hopen, rfl⟩
    · exact ⟨hs, prefix_rfl, fun _ => rfl⟩
    · refine ⟨⟨⟨hs.1.1, hs.1.2, hs.1.3, hs.1.4⟩, hs.hash, ?_⟩, prefix_rfl, by simp [hopen]⟩
      exact fun _ h => (Option.some.inj h).symm

theorem step_spec (hs : s.Exact kind) (i : StageStep α) :
    (kind.step s i).Exact kind ∧ s.items <+: (kind.step s i).items
      ∧ (s.sha256.isSome → kind.step s i = s) := by
  unfold SetKind.step
  split
  · rename_i h
    exact call_spec hs h
  · exact ⟨hs, prefix_rfl, fun _ => rfl⟩

theorem exact_empty (kind : SetKind α) : StagedSet.Exact kind {} := by
  refine ⟨⟨rfl, rfl, rfl, Pairwise.nil⟩, ?_, nofun⟩
  simp [SetKind.setCheckpoint, new_eq, SetKind.message, StagedSet.items]

/-! ## Runs -/

/-- An append arrives while the set is not sealed. -/
def Receiving (s : StagedSet α) (i : StageStep α) : Prop :=
  ∀ request, i = .append request → s.sha256 = none

/-- An accepted batch agrees with the staged items at every ordinal that it overlaps. -/
def Agrees (kind : SetKind α) (s : StagedSet α) (i : StageStep α) : Prop :=
  ∀ request s', i = .append request → kind.append request s = .ok s' →
    ∀ n < request.values.length, request.startOrdinal.toNat + n < s.items.length →
      s.items[request.startOrdinal.toNat + n]? = request.values[n]?

/-- An accepted batch of a run has an item for the ordinal `n`. -/
def Acknowledged (kind : SetKind α) (n : Nat) : StagedSet α → List (StageStep α) → Prop
  | _, [] => False
  | s, i :: run =>
    (∃ request s', i = .append request ∧ kind.append request s = .ok s'
        ∧ request.startOrdinal.toNat ≤ n
        ∧ n < request.startOrdinal.toNat + request.values.length)
      ∨ Acknowledged kind n (kind.step s i) run

/-- A batch is a part of a list, at its ordinals. -/
def AppendRequest.IsPart (request : AppendRequest α) (list : List α) : Prop :=
  request.values = (list.drop request.startOrdinal.toNat).take request.values.length

/-- Along a run of parts of a list the staged list is a beginning of it that has every
acknowledged ordinal. -/
theorem items_of_parts {list : List α} {run : List (StageStep α)} (hs : s.Exact kind)
    (hbelow : s.items <+: list) (hopen : Guarded kind.step Receiving s run)
    (hparts : ∀ request, .append request ∈ run → request.IsPart list) :
    s.items <+: (run.foldl kind.step s).items ∧ (run.foldl kind.step s).items <+: list
      ∧ ∀ n, Acknowledged kind n s run → n < (run.foldl kind.step s).items.length := by
  induction run generalizing s with
  | nil => exact ⟨prefix_rfl, hbelow, fun _ h => h.elim⟩
  | cons i run ih =>
    obtain ⟨hs', hgrown, -⟩ := step_spec hs i
    have hmerged : ∀ request s', i = .append request → kind.append request s = .ok s' →
        kind.step s i = s' ∧ Merged request.startOrdinal.toNat request.values s.items s'.items := by
      rintro request s' rfl h
      refine ⟨by simp [SetKind.step, SetKind.call, h], ?_⟩
      exact (append_spec hs (hopen.1 request rfl) h).2.2
    have hnext : (kind.step s i).items <+: list := by
      unfold SetKind.step
      split
      · rename_i s' h
        cases i with
        | append request =>
          exact (hmerged request s' rfl h).2.prefix_of_part hbelow (hparts request mem_cons_self)
        | sealSet live planned =>
          rcases sealSet_spec hs h with rfl | ⟨-, rfl⟩ <;> exact hbelow
      · exact hbelow
    obtain ⟨hmore, hlist, hlater⟩ := ih hs' hnext hopen.2 fun request hr =>
      hparts request (mem_cons_of_mem _ hr)
    refine ⟨hgrown.trans hmore, hlist, ?_⟩
    rintro n (⟨request, s', hi, h, -, hn⟩ | hrest)
    · obtain ⟨heq, hmerge⟩ := hmerged request s' hi h
      have hreached : n < (kind.step s i).items.length := by
        rw [heq, hmerge.length]
        omega
      exact Nat.lt_of_lt_of_le hreached hmore.length_le
    · exact hlater n hrest

/-- In every run the staged list, its counters, its running hash and its identity agree, and
nothing changes a sealed set. If no append arrives at a sealed set, then a batch is accepted
only if it agrees with what is staged, and a client whose batches have all been
acknowledged has staged exactly its list. -/
theorem staged_appends_exactly_once (kind : SetKind α) (run : List (StageStep α)) :
    Throughout kind.step (StagedSet.Exact kind) {} run
      ∧ Guarded kind.step (fun s i => s.sha256.isSome → kind.step s i = s) {} run
      ∧ (Guarded kind.step Receiving {} run → Guarded kind.step (Agrees kind) {} run
        ∧ ∀ list, (∀ request, .append request ∈ run → request.IsPart list) →
          (∀ n < list.length, Acknowledged kind n {} run) →
            (run.foldl kind.step {}).items = list) := by
  have hinv : ∀ s i, s.Exact kind → (kind.step s i).Exact kind := fun s i hs => (step_spec hs i).1
  have hempty := exact_empty kind
  refine ⟨throughout_of_guarded (fun s i hs _ => hinv s i hs) (fun _ h => h) hempty (guarded_true _ _),
    (guarded_true _ _).imp hinv (fun s i hs _ => (step_spec hs i).2.2) hempty, fun hopen => ⟨?_, ?_⟩⟩
  · refine hopen.imp hinv (fun s i hs hopen request s' hi h n hn hold => ?_) hempty
    exact (append_spec hs (hopen request hi) h).2.2.agrees hn hold
  · intro list hparts hall
    obtain ⟨-, hbelow, hreached⟩ := items_of_parts hempty nil_prefix hopen hparts
    refine hbelow.eq_of_length (Nat.le_antisymm hbelow.length_le ?_)
    cases hlength : list.length with
    | zero => exact Nat.zero_le _
    | succ n => exact hreached n (hall n (by omega))

namespace Samples

/-- The root of a collection. -/
def root (id : Nat) : CollectionRootIdentity := ⟨id, ['a'], ['c']⟩

/-- Claims on these collections. -/
def inputs : SetKind CollectionRootIdentity := claimInputs fun id => some (root id)

/-- A batch of collections. -/
def batch (start : Nat) (ids : List Nat) : StageStep CollectionRootIdentity :=
  .append ⟨true, start, ids.map root⟩

end Samples

open Samples in
/-- A client that sends two collections, the first of them twice. -/
theorem overlapping_batches_staged :
    ([batch 0 [1], batch 0 [1, 2]].foldl inputs.step {}).items = [root 1, root 2] := by
  refine ((staged_appends_exactly_once inputs [batch 0 [1], batch 0 [1, 2]]).2.2 ?_).2 _ ?_ ?_
  · exact ⟨fun _ _ => by decide +kernel, fun _ _ => by decide +kernel, trivial⟩
  · intro request hrequest
    simp [batch] at hrequest
    rcases hrequest with rfl | rfl <;> rfl
  · intro n hn
    obtain ⟨s', hs', -⟩ := exists_ok_of_elim (x := inputs.append ⟨true, (0 : Nat), [root 1, root 2]⟩
      (inputs.step {} (batch 0 [1]))) (p := fun _ => true) (by decide +kernel)
    exact .inr (.inl ⟨_, s', rfl, hs', Nat.zero_le _, by simpa using hn⟩)

open Samples in
/-- A sealed set accepts a batch that differs from it. -/
theorem sealed_set_accepts_other_batch :
    ¬ Guarded inputs.step (Agrees inputs) {} [batch 0 [1], .sealSet true true, batch 0 [2]] := by
  intro h
  have hsealed : (inputs.step (inputs.step {} (batch 0 [1])) (.sealSet true true)).sha256.isSome
      ∧ (inputs.step (inputs.step {} (batch 0 [1])) (.sealSet true true)).items = [root 1] := by
    decide +kernel
  have hagrees := h.2.2.1 _ _ rfl (by
    simp only [SetKind.append, if_pos hsealed.1]
    rfl) 0 Nat.zero_lt_one (by rw [hsealed.2]; decide)
  rw [hsealed.2] at hagrees
  revert hagrees
  decide

end Riverhog.Workflow
