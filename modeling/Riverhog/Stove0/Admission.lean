import Riverhog.Catalog.Sync
import Riverhog.Core.Table
import Riverhog.Stove0.Documents

/-!
# Classification admission

The admission of catalog collections under one policy: the policy's row, which follows the
catalog with a cursor, the newest revision observed of each collection, the match state of
each collection, and the admission intents recorded so far. A page is read outside a
transaction and committed under a lock of the policy's row.

The rows of observed revisions and of matches carry a generation, a fresh token for each
baseline; the model keeps those of the current generation. The row of a policy is inserted
before its first use and never deleted. The digests are a parameter, as for the documents.
-/

namespace Riverhog.Stove0

open Core Catalog

/-- `AdmissionPolicy`. -/
structure AdmissionPolicy where
  id : Text
  revision : Nat
  requiredTags : List Text
  recipeId : Text
  recipeRevision : Nat
  recipeSha256 : Digest
  effectiveIntent : Json

/-- `AdmissionIntent`, without its identity. -/
structure AdmissionIntent where
  policyId : Text
  policyRevision : Nat
  policySha256 : Digest
  requiredTags : List Text
  collection : Descriptor
  recipeId : Text
  recipeRevision : Nat
  recipeSha256 : Digest
  effectiveIntent : Json

/-- The digests of admission documents: `policy_sha256`, `admission_id` and the digest of an
observed change. -/
structure AdmissionDigests where
  policy : AdmissionPolicy → Digest
  intent : AdmissionIntent → Digest
  change : Change → Digest

/-- `AdmissionIntent.seal`. -/
def AdmissionIntent.seal (d : AdmissionDigests) (policy : AdmissionPolicy)
    (collection : Descriptor) : AdmissionIntent where
  policyId := policy.id
  policyRevision := policy.revision
  policySha256 := d.policy policy
  requiredTags := policy.requiredTags
  collection := collection
  recipeId := policy.recipeId
  recipeRevision := policy.recipeRevision
  recipeSha256 := policy.recipeSha256
  effectiveIntent := policy.effectiveIntent

/-- `AdmissionPhase`. -/
inductive AdmissionPhase where
  | new | baseline | following | resetRequired
  deriving DecidableEq

/-- The mode of a baseline. -/
inductive BaselineMode where
  | observe | backfill
  deriving DecidableEq

/-- `_AdmissionPolicyRow`. -/
structure AdmissionPolicyRow where
  policySha256 : Digest
  phase : AdmissionPhase
  sourceIdentity : Option Text
  authorizationViewIdentity : Option Text
  cursor : Option Cursor
  baselineMode : BaselineMode
  throughRevision : Nat
  deriving DecidableEq

/-- `_AdmissionObservedRevisionRow`; the operation is part of the digest's document. -/
structure ObservedRevisionRow where
  descriptorRevision : Nat
  isDelete : Bool
  authoritySha256 : Digest
  deriving DecidableEq

/-- `_AdmissionMatchRow`: the match and the descriptor it was evaluated for. -/
structure MatchRow where
  matched : Bool
  descriptor : Descriptor
  deriving DecidableEq

/-- `AdmissionState`. -/
inductive AdmissionState where
  | intent | previewed | workBound
  deriving DecidableEq

/-- `_AdmissionCandidateRow`. -/
structure CandidateRow where
  admissionId : Digest
  intent : AdmissionIntent
  state : AdmissionState

/-- The row of an intent that was just recorded for a collection. -/
def CandidateRow.of (d : AdmissionDigests) (policy : AdmissionPolicy) (descriptor : Descriptor) :
    CandidateRow :=
  let intent := AdmissionIntent.seal d policy descriptor
  ⟨d.intent intent, intent, .intent⟩

/-- The rows of one policy. -/
structure Admissions where
  row : AdmissionPolicyRow
  observed : Nat → Option ObservedRevisionRow
  matchRows : Nat → Option MatchRow
  candidates : Table CandidateRow.admissionId

/-- What a commit raises. -/
inductive AdmissionError where
  | authorityChanged
  | runtime (message : String)
  deriving DecidableEq

/-- What became of one observed revision. -/
inductive Recorded where
  | applied | duplicate | stale
  deriving DecidableEq

/-- The row of an observed change. -/
def ObservedRevisionRow.of (d : AdmissionDigests) (change : Change) : ObservedRevisionRow where
  descriptorRevision := change.revision
  isDelete := change.isDelete
  authoritySha256 := d.change change

/-! ## The evaluation of a page -/

/-- The answer to a question for one tag of a collection. -/
structure TagMembership where
  collectionId : Nat
  revision : Nat
  tagSetIdentity : Text
  tag : Text
  present : Bool
  deriving DecidableEq

/-- What reading and evaluating a page raises. -/
inductive FetchError where
  | riverhog (error : RiverhogError)
  | runtime (message : String)
  deriving DecidableEq

/-- `collection_contains_tag`: Riverhog's answers at the time of an evaluation. -/
abbrev TagAnswers := Descriptor → Text → Except RiverhogError TagMembership

/-- The loop of `_matches` over the required tags. -/
def matchesTags (contains : TagAnswers) (descriptor : Descriptor) :
    List Text → Except FetchError Bool
  | [] => .ok true
  | tag :: tags =>
    match contains descriptor tag with
    | .error error => .error (.riverhog error)
    | .ok response =>
      if response.collectionId ≠ descriptor.collectionId ∨
          response.revision ≠ descriptor.tagRevision ∨
          response.tagSetIdentity ≠ descriptor.tagSetIdentity ∨ response.tag ≠ tag then
        .error (.runtime "Riverhog tag membership response changed its authority")
      else if response.present then matchesTags contains descriptor tags
      else .ok false

/-- `_matches`. -/
def matchesPolicy (contains : TagAnswers) (policy : AdmissionPolicy) (descriptor : Descriptor) :
    Except FetchError Bool :=
  matchesTags contains descriptor policy.requiredTags

/-- The collections of a page with their matches. -/
def evaluateCollections (contains : TagAnswers) (policy : AdmissionPolicy) (page : CollectionPage) :
    Except FetchError (List (Descriptor × Bool)) :=
  page.collections.mapM fun item => (matchesPolicy contains policy item).map (item, ·)

/-- The match of the change that a page starts with, when it is an upsert. -/
def evaluateChange (contains : TagAnswers) (policy : AdmissionPolicy) (page : ChangePage) :
    Except FetchError (Option (Descriptor × Bool)) :=
  match page.changes with
  | .upsert descriptor :: _ =>
    (matchesPolicy contains policy descriptor).map fun matched => some (descriptor, matched)
  | _ => .ok none

/-! ## Transactions -/

namespace Admissions

variable (d : AdmissionDigests) (policy : AdmissionPolicy) (s : Admissions)

/-- The observed row of a collection is written. -/
def putObserved (change : Change) : Admissions :=
  { s with
    observed := Function.update s.observed change.collectionId (some (.of d change)) }

/-- `_observe_revision`. -/
def observeRevision (change : Change) : Except AdmissionError (Recorded × Admissions) :=
  match s.observed change.collectionId with
  | none => .ok (.applied, s.putObserved d change)
  | some observed =>
    if change.revision < observed.descriptorRevision then .ok (.stale, s)
    else if change.revision = observed.descriptorRevision then
      if observed.isDelete ≠ change.isDelete ∨ observed.authoritySha256 ≠ d.change change then
        .error (.runtime "Riverhog catalog revision changed its exact authority")
      else .ok (.duplicate, s)
    else .ok (.applied, s.putObserved d change)

/-- `_record_match`. -/
def recordMatch (descriptor : Descriptor) (matched : Bool) :
    Except AdmissionError (Recorded × Admissions) := do
  let (recorded, s) ← s.observeRevision d (.upsert descriptor)
  if recorded = .applied then
    .ok (.applied, { s with
      matchRows := Function.update s.matchRows descriptor.collectionId
        (some ⟨matched, descriptor⟩) })
  else .ok (recorded, s)

/-- `_record_intent`. -/
def recordIntent (descriptor : Descriptor) : Admissions :=
  { s with candidates := (s.candidates.insert (.of d policy descriptor)).getD s.candidates }

/-- `_require_page_authority`. -/
def requirePageAuthority (cursor : Cursor) (page : Envelope) : Except AdmissionError Unit :=
  if s.row.policySha256 ≠ d.policy policy ∨ s.row.cursor ≠ some cursor ∨
      s.row.sourceIdentity ≠ some page.sourceIdentity ∨
      s.row.authorizationViewIdentity ≠ some page.authorizationViewIdentity then
    .error .authorityChanged
  else .ok ()

/-- Whether the row stands under the policy and the envelope of a page at a cursor and a
phase. -/
def standsAt (page : Envelope) (cursor : Cursor) (phase : AdmissionPhase) : Bool :=
  s.row.policySha256 = d.policy policy ∧ s.row.sourceIdentity = some page.sourceIdentity ∧
    s.row.authorizationViewIdentity = some page.authorizationViewIdentity ∧
    s.row.cursor = some cursor ∧ s.row.phase = phase

/-- The phase after a page of collections. -/
def nextPhase : Continuation → AdmissionPhase
  | .next _ => .baseline
  | .changes _ => .following

/-- One collection of a baseline page. -/
def recordBaseline (s : Admissions) (item : Descriptor × Bool) :
    Except AdmissionError Admissions := do
  let (recorded, t) ← s.recordMatch d item.1 item.2
  if recorded = .applied ∧ item.2 = true ∧ s.row.baselineMode = .backfill then
    .ok (t.recordIntent d policy item.1)
  else .ok t

/-- Whether a page of collections is the one that brought the row where it stands. -/
def baselineCommitted (page : CollectionPage) : Bool :=
  s.standsAt d policy page.toEnvelope page.continuation.cursor (nextPhase page.continuation)

/-- `_commit_baseline_page`. -/
def commitBaselinePage (cursor : Cursor) (page : CollectionPage)
    (items : List (Descriptor × Bool)) : Except AdmissionError (Bool × Admissions) :=
  if s.baselineCommitted d policy page then .ok (false, s)
  else do
    s.requirePageAuthority d policy cursor page.toEnvelope
    let t ← items.foldlM (recordBaseline d policy) s
    .ok (true, { t with row := { t.row with
      cursor := some page.continuation.cursor
      phase := nextPhase page.continuation } })

/-- The change of a following page. -/
def recordChange (change : Change) (evaluated : Option (Descriptor × Bool)) :
    Except AdmissionError Admissions :=
  match change with
  | .delete .. => do
    let (recorded, t) ← s.observeRevision d change
    if recorded = .applied then
      .ok { t with matchRows := Function.update t.matchRows change.collectionId none }
    else .ok t
  | .upsert descriptor =>
    match evaluated with
    | none => .error (.runtime "admission change was not evaluated exactly")
    | some (subject, matched) =>
      if subject ≠ descriptor then
        .error (.runtime "admission change was not evaluated exactly")
      else do
        let priorMatched := (s.matchRows descriptor.collectionId).elim false MatchRow.matched
        let (recorded, t) ← s.recordMatch d descriptor matched
        if recorded = .applied ∧ matched = true ∧ priorMatched = false then
          .ok (t.recordIntent d policy descriptor)
        else .ok t

/-- Whether a page of changes is the one that brought the row where it stands. -/
def changeCommitted (page : ChangePage) : Bool :=
  s.standsAt d policy page.toEnvelope page.nextCursor .following &&
    decide (s.row.throughRevision = page.throughRevision)

/-- The row after a page of changes. -/
def follow (page : ChangePage) : Admissions :=
  { s with row := { s.row with
    cursor := some page.nextCursor
    throughRevision := page.throughRevision } }

/-- `_commit_change_page`. -/
def commitChangePage (cursor : Cursor) (page : ChangePage)
    (evaluated : Option (Descriptor × Bool)) : Except AdmissionError (Bool × Admissions) :=
  if s.changeCommitted d policy page then .ok (false, s)
  else do
    s.requirePageAuthority d policy cursor page.toEnvelope
    let t ← match page.changes with
      | [] => .ok s
      | [change] => s.recordChange d policy change evaluated
      | _ => .error (.runtime "admission change step exceeded its one-change transaction")
    .ok (page.changes ≠ [] || page.nextCursor ≠ cursor, t.follow page)

/-- `_bind_checkpoint`: a fresh generation has no rows of its own. -/
def bindCheckpoint (checkpoint : Checkpoint) (mode : BaselineMode) : Admissions where
  row := { s.row with
    phase := .baseline
    sourceIdentity := some checkpoint.sourceIdentity
    authorizationViewIdentity := some checkpoint.authorizationViewIdentity
    cursor := some checkpoint.catalogCursor
    baselineMode := mode
    throughRevision := 0 }
  observed _ := none
  matchRows _ := none
  candidates := s.candidates

/-- `_require_rebaseline`. -/
def requireRebaseline : Admissions := { s with row := { s.row with phase := .resetRequired } }

end Admissions

end Riverhog.Stove0
