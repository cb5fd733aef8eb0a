import Riverhog.Stove0.AdmissionIntents

/-!
# Concurrent admission workers

Any number of workers advance one policy. Each loads the policy's row, reads a page at the
row's cursor and commits it later; between these steps the other workers and the catalog move
on. A page is read and committed under an unchanged source, authorization view and policy.

A commit whose cursor was moved meanwhile is taken for a changed authority, unless the row
stands exactly at the continuation of its page.
-/

namespace Riverhog.Stove0

open Core Catalog Admissions

/-- `_RESET_ERRORS`. -/
def resetErrors : List ErrorCode :=
  [.catalogSyncCursorExpired, .catalogSyncHistoryExpired, .catalogSyncSourceChanged,
    .catalogSyncViewChanged, .preconditionFailed, .forbidden, .unauthorized]

/-- Where a worker stands within `_advance_policy`. -/
inductive AdmissionWorker where
  | idle
  | loaded (phase : AdmissionPhase) (cursor : Option Cursor)
  | checkpointed (checkpoint : Checkpoint)
  | collections (cursor : Cursor) (page : CollectionPage) (items : List (Descriptor × Bool))
  | changes (cursor : Cursor) (page : ChangePage) (evaluated : Option (Descriptor × Bool))
  /-- An error that requires a new baseline was raised. -/
  | rebaselining

/-- The catalog, the rows of the policy and its workers. `start` is the revision that the bound
checkpoint starts from and `applied` the changes that commits have recorded, in their order. -/
structure AdmissionSystem (ω : Type) where
  catalog : Snapshot
  rows : Admissions
  workers : ω → AdmissionWorker
  start : Nat
  applied : List Change

/-- One step of a worker or of the catalog. -/
inductive AdmissionAction (ω : Type) where
  /-- A worker loads the policy's row. -/
  | load (worker : ω)
  /-- A worker reads what follows the cursor it loaded, and evaluates it. -/
  | fetch (worker : ω) (contains : TagAnswers)
  /-- A worker runs the transaction of `_advance_policy`. -/
  | commit (worker : ω)
  /-- A worker runs `_require_rebaseline`. -/
  | rebaseline (worker : ω)
  /-- A worker is stopped. -/
  | crash (worker : ω)
  /-- The next event of the catalog is published. -/
  | publish
  /-- The oldest events of the catalog are reaped. -/
  | reap (retained : Nat)
  /-- The published collections change. -/
  | edit (collections : List Descriptor)
  /-- Time passes. -/
  | tick

namespace AdmissionSystem

variable {ω : Type} [DecidableEq ω] (settings : Settings) (d : AdmissionDigests)
  (policy : AdmissionPolicy)

/-- What Riverhog answers to a worker that loaded a phase and a cursor. -/
def answer (catalog : Snapshot) (contains : TagAnswers) (phase : AdmissionPhase)
    (cursor : Option Cursor) : Except FetchError AdmissionWorker :=
  match phase, cursor with
  | .resetRequired, _ => .ok .idle
  | .new, _ => .ok (.checkpointed (catalog.checkpoint settings))
  | _, none => .error (.runtime "active admission policy has no catalog cursor")
  | .baseline, some cursor =>
    match catalog.listCollections settings cursor catalogSyncPageSizeMax with
    | .error error => .error (.riverhog error)
    | .ok page => (evaluateCollections contains policy page).map (.collections cursor page)
  | .following, some cursor =>
    match catalog.listChanges settings cursor 1 with
    | .error error => .error (.riverhog error)
    | .ok page => (evaluateChange contains policy page).map (.changes cursor page)

/-- Where a worker goes from an answer: a reset error requires a new baseline, every other one
ends the call. -/
def afterAnswer : Except FetchError AdmissionWorker → AdmissionWorker
  | .ok worker => worker
  | .error (.riverhog error) => if error.code ∈ resetErrors then .rebaselining else .idle
  | .error (.runtime _) => .idle

/-- Where a worker goes from a commit that raised. -/
def afterError : AdmissionError → AdmissionWorker
  | .authorityChanged => .rebaselining
  | .runtime _ => .idle

variable (s : AdmissionSystem ω)

/-- A worker moves on. -/
def setWorker (w : ω) (worker : AdmissionWorker) : AdmissionSystem ω :=
  { s with workers := Function.update s.workers w worker }

/-- The revision that a checkpoint starts from. -/
def startOf : Cursor → Nat
  | .catalog _ _ start .. => start
  | .changes after .. => after

/-- The transaction of a worker. -/
def commit (w : ω) : AdmissionSystem ω :=
  match s.workers w with
  | .checkpointed checkpoint =>
    if s.rows.row.phase = .new then
      { s with
        rows := s.rows.bindCheckpoint checkpoint .observe
        start := startOf checkpoint.catalogCursor }.setWorker w .idle
    else s.setWorker w .idle
  | .collections cursor page items =>
    match s.rows.commitBaselinePage d policy cursor page items with
    | .ok (_, rows) => { s with rows }.setWorker w .idle
    | .error error => s.setWorker w (afterError error)
  | .changes cursor page evaluated =>
    match s.rows.commitChangePage d policy cursor page evaluated with
    | .ok (_, rows) =>
      { s with
        rows
        applied := if s.rows.changeCommitted d policy page then s.applied
          else s.applied ++ page.changes }.setWorker w .idle
    | .error error => s.setWorker w (afterError error)
  | _ => s

/-- One step. -/
def step (action : AdmissionAction ω) : AdmissionSystem ω :=
  match action with
  | .load w => s.setWorker w (.loaded s.rows.row.phase s.rows.row.cursor)
  | .fetch w contains =>
    match s.workers w with
    | .loaded phase cursor =>
      s.setWorker w (afterAnswer (answer settings policy s.catalog contains phase cursor))
    | _ => s
  | .commit w => s.commit d policy w
  | .rebaseline w =>
    match s.workers w with
    | .rebaselining => { s with rows := s.rows.requireRebaseline }.setWorker w .idle
    | _ => s
  | .crash w => s.setWorker w .idle
  | .publish => { s with catalog := { s.catalog with committed := s.catalog.committed + 1 } }
  | .reap retained => { s with catalog := { s.catalog with retained } }
  | .edit collections => { s with catalog := { s.catalog with collections } }
  | .tick => { s with catalog := { s.catalog with now := s.catalog.now + 1 } }

/-- A run. -/
def run (actions : List (AdmissionAction ω)) : AdmissionSystem ω :=
  actions.foldl (step settings d policy) s

/-- The rows of a policy that was just configured, before any worker started. -/
structure Configured (s : AdmissionSystem ω) : Prop where
  policySha256 : s.rows.row.policySha256 = d.policy policy
  phase : s.rows.row.phase = .new
  cursor : s.rows.row.cursor = none
  workers : ∀ w, s.workers w = .idle
  applied : s.applied = []

/-! ## Orderly runs -/

/-- A commit finds the row at the cursor that its page was read at, or exactly at the
continuation of the page. -/
def Current (rows : Admissions) : AdmissionWorker → Prop
  | .collections cursor page _ =>
    rows.row.cursor = some cursor ∨ rows.baselineCommitted d policy page = true
  | .changes cursor page _ =>
    rows.row.cursor = some cursor ∨ rows.changeCommitted d policy page = true
  | _ => True

/-- Riverhog does not answer a worker with a reset error. -/
def Answered (contains : TagAnswers) (catalog : Snapshot) : AdmissionWorker → Prop
  | .loaded phase cursor => ∀ error,
    answer settings policy catalog contains phase cursor = .error (.riverhog error) →
      error.code ∉ resetErrors
  | _ => True

/-- Every page is committed while it is current, and no reading meets a reset error. -/
def Orderly (s : AdmissionSystem ω) : AdmissionAction ω → Prop
  | .fetch w contains => Answered settings policy contains s.catalog (s.workers w)
  | .commit w => Current d policy s.rows (s.workers w)
  | _ => True

/-- Every step of a run is orderly. -/
def OrderlyRun (s : AdmissionSystem ω) : List (AdmissionAction ω) → Prop
  | [] => True
  | action :: actions =>
    Orderly settings d policy s action ∧ OrderlyRun (s.step settings d policy action) actions

variable {settings d policy}

/-- What holds of the page that a worker has read. -/
def Held (catalog : Snapshot) : AdmissionWorker → Prop
  | .loaded _ cursor => ∀ c ∈ cursor, c.Horizon
  | .checkpointed checkpoint => checkpoint.toEnvelope = catalog.toEnvelope ∧
    ∃ after deadline start upper source view,
      checkpoint.catalogCursor = .catalog after deadline start upper source view
  | .collections cursor page _ => page.toEnvelope = catalog.toEnvelope ∧
    ∃ after deadline start upper source view,
      cursor = .catalog after deadline start upper source view ∧
      match page.continuation with
      | .next next => ∃ after deadline upper source view,
          next = .catalog after deadline start upper source view
      | .changes next => next.After start ∧ next.Horizon
  | .changes cursor page _ => cursor.Horizon ∧ ∃ after limit,
    cursor.After after ∧ catalog.PageAt after limit page
  | .idle => True
  | .rebaselining => False

/-- The row is bound to the source and the view of the catalog. -/
def Bound (s : AdmissionSystem ω) : Prop :=
  s.rows.row.sourceIdentity = some s.catalog.sourceIdentity ∧
    s.rows.row.authorizationViewIdentity = some s.catalog.authorizationViewIdentity

/-- What holds of the policy's row: the recorded changes are what the principal sees from the
start of the baseline up to the cursor. -/
def Standing (s : AdmissionSystem ω) : Prop :=
  match s.rows.row.phase with
  | .new => s.rows.row.cursor = none ∧ s.applied = []
  | .baseline => s.Bound ∧ s.applied = [] ∧ ∃ after deadline upper source view,
    s.rows.row.cursor = some (.catalog after deadline s.start upper source view)
  | .following => s.Bound ∧ ∃ cursor position, s.rows.row.cursor = some cursor ∧
    cursor.After position ∧ cursor.Horizon ∧ s.start ≤ position ∧
    s.applied = s.catalog.visible s.start position
  | .resetRequired => False

/-- The invariant of orderly runs. -/
structure Invariant (d : AdmissionDigests) (policy : AdmissionPolicy) (s : AdmissionSystem ω) :
    Prop where
  policySha256 : s.rows.row.policySha256 = d.policy policy
  standing : s.Standing
  held : ∀ w, Held s.catalog (s.workers w)

omit [DecidableEq ω] in
theorem Configured.invariant {s : AdmissionSystem ω} (h : Configured d policy s) :
    Invariant d policy s := by
  refine ⟨h.policySha256, ?_, fun w => ?_⟩
  · rw [Standing, h.phase]
    exact ⟨h.cursor, h.applied⟩
  · rw [h.workers]
    trivial

variable {s : AdmissionSystem ω}

variable {worker : AdmissionWorker} {after : Nat} {contains : TagAnswers} {w : ω}

/-- A worker that moves on keeps the invariant when its page is in order. -/
theorem Invariant.setWorker (h : Invariant d policy s) (hheld : Held s.catalog worker) :
    Invariant d policy (s.setWorker w worker) := by
  exact ⟨h.policySha256, h.standing, (Function.forall_update_iff s.workers fun _ => Held s.catalog).2
    ⟨hheld, fun w' _ => h.held w'⟩⟩

omit [DecidableEq ω] in
/-- The cursor of the row is one that was issued. -/
theorem Invariant.horizon (h : Invariant d policy s) : ∀ c ∈ s.rows.row.cursor, c.Horizon := by
  intro c hc
  have hstanding := h.standing
  rw [Standing] at hstanding
  split at hstanding
  · rw [hstanding.1] at hc
    cases hc
  · obtain ⟨-, -, after, deadline, upper, source, view, hcursor⟩ := hstanding
    rw [hcursor] at hc
    cases hc
    trivial
  · obtain ⟨-, cursor, position, hcursor, -, hhorizon, -⟩ := hstanding
    rw [hcursor] at hc
    cases hc
    exact hhorizon
  · exact hstanding.elim

variable {cursor : Cursor} {catalog : Snapshot}

/-- What Riverhog answers is in order. -/
theorem answer_held {phase : AdmissionPhase} {cursor : Option Cursor}
    (hcursor : ∀ c ∈ cursor, c.Horizon)
    (h : answer settings policy catalog contains phase cursor = .ok worker) :
    Held catalog worker := by
  cases phase with
  | resetRequired =>
    cases h
    trivial
  | new =>
    cases h
    exact ⟨rfl, _, _, _, _, _, _, rfl⟩
  | baseline =>
    cases cursor with
    | none => cases h
    | some cursor =>
      cases hpage : catalog.listCollections settings cursor catalogSyncPageSizeMax with
      | error error => simp [answer, hpage] at h
      | ok page =>
        simp only [answer, hpage, map_eq_ok] at h
        obtain ⟨items, -, rfl⟩ := h
        obtain ⟨after, deadline, start, upper, source, view, rfl, -, hcommitted, rfl⟩ :=
          Snapshot.listCollections_spec hpage
        refine ⟨rfl, after, deadline, start, upper, source, view, rfl, ?_⟩
        simp only [Snapshot.collectionsPage]
        split
        · rename_i hcontinuation
          split at hcontinuation
          · cases hcontinuation
            exact ⟨_, _, _, _, _, rfl⟩
          · cases hcontinuation
        · rename_i hcontinuation
          split at hcontinuation
          · cases hcontinuation
          · cases hcontinuation
            exact ⟨rfl, hcommitted⟩
  | following =>
    cases cursor with
    | none => cases h
    | some cursor =>
      cases hpage : catalog.listChanges settings cursor 1 with
      | error error => simp [answer, hpage] at h
      | ok page =>
        simp only [answer, hpage, map_eq_ok] at h
        obtain ⟨evaluated, -, rfl⟩ := h
        have hhorizon := hcursor cursor rfl
        cases cursor with
        | catalog => simp [Snapshot.listChanges, bind_eq_ok] at hpage
        | changes after bootstrap deadline through source view =>
          have hafter : (Cursor.changes after bootstrap deadline through source view).After after :=
            rfl
          exact ⟨hhorizon, after, 1, hafter, Snapshot.listChanges_spec hafter hhorizon hpage⟩

/-- Without a reset error a worker goes on with what Riverhog answered. -/
theorem afterAnswer_held {phase : AdmissionPhase} {cursor : Option Cursor}
    (hcursor : ∀ c ∈ cursor, c.Horizon)
    (hanswered : Answered settings policy contains catalog (.loaded phase cursor)) :
    Held catalog (afterAnswer (answer settings policy catalog contains phase cursor)) := by
  cases hanswer : answer settings policy catalog contains phase cursor with
  | ok worker => exact answer_held hcursor hanswer
  | error error =>
    cases error with
    | runtime message => trivial
    | riverhog error =>
      rw [afterAnswer, if_neg (hanswered error hanswer)]
      trivial

omit [DecidableEq ω] in
/-- A row with a cursor is bound. -/
theorem Invariant.bound (h : Invariant d policy s) (hcursor : s.rows.row.cursor = some cursor) :
    s.Bound := by
  have hstanding := h.standing
  rw [Standing] at hstanding
  split at hstanding
  · rw [hstanding.1] at hcursor
    cases hcursor
  · exact hstanding.1
  · exact hstanding.1
  · exact hstanding.elim

omit [DecidableEq ω] in
/-- A page that was read at the row's cursor has the authority of the row. -/
theorem Invariant.authority (h : Invariant d policy s) {page : Envelope}
    (hpage : page = s.catalog.toEnvelope) (hcursor : s.rows.row.cursor = some cursor) :
    s.rows.requirePageAuthority d policy cursor page = .ok () := by
  obtain ⟨hsource, hview⟩ := h.bound hcursor
  rw [requirePageAuthority_eq_ok, hpage]
  exact ⟨h.policySha256, hcursor, hsource, hview⟩

omit [DecidableEq ω] in
/-- A row with a cursor over the collections is in the baseline. -/
theorem Invariant.in_baseline (h : Invariant d policy s) {deadline start upper : Nat}
    {source view : Text}
    (hcursor : s.rows.row.cursor = some (.catalog after deadline start upper source view)) :
    s.start = start ∧ s.applied = [] := by
  have hstanding := h.standing
  rw [Standing] at hstanding
  split at hstanding
  · rw [hstanding.1] at hcursor
    cases hcursor
  · obtain ⟨-, happlied, _, _, _, _, _, hrow⟩ := hstanding
    rw [hrow] at hcursor
    injection hcursor with hcursor
    injection hcursor with _ _ hstart
    exact ⟨hstart, happlied⟩
  · obtain ⟨-, cursor, position, hrow, hafter, -⟩ := hstanding
    rw [hrow] at hcursor
    injection hcursor with hcursor
    rw [hcursor] at hafter
    exact hafter.elim
  · exact hstanding.elim

section

variable (h : Invariant d policy s)
include h

omit [DecidableEq ω] in
/-- A row with a cursor over the changes is being followed. -/
theorem Invariant.in_following
    (hcursor : s.rows.row.cursor = some cursor) (hafter : cursor.After after) :
    s.rows.row.phase = .following ∧ s.start ≤ after ∧
      s.applied = s.catalog.visible s.start after := by
  have hstanding := h.standing
  rw [Standing] at hstanding
  split at hstanding
  · rw [hstanding.1] at hcursor
    cases hcursor
  · obtain ⟨-, -, _, _, _, _, _, hrow⟩ := hstanding
    rw [hrow] at hcursor
    injection hcursor with hcursor
    rw [← hcursor] at hafter
    exact hafter.elim
  · rename_i hphase
    obtain ⟨-, other, position, hrow, hposition, -, hle, happlied⟩ := hstanding
    obtain rfl : other = cursor := Option.some.inj (hrow.symm.trans hcursor)
    obtain rfl : position = after := by
      cases other with
      | catalog => exact hafter.elim
      | changes => exact (hposition : _ = _).symm.trans hafter
    exact ⟨hphase, hle, happlied⟩
  · exact hstanding.elim

/-- Binding a checkpoint starts the baseline. -/
theorem Invariant.commit_checkpointed {checkpoint : Checkpoint}
    (hw : s.workers w = .checkpointed checkpoint) : Invariant d policy (s.commit d policy w) := by
  have hheld := h.held w
  rw [hw] at hheld
  obtain ⟨henvelope, after, deadline, start, upper, source, view, hcursor⟩ := hheld
  simp only [commit, hw]
  split
  · rename_i hnew
    have hstanding := h.standing
    rw [Standing, hnew] at hstanding
    have hsource : checkpoint.sourceIdentity = s.catalog.sourceIdentity :=
      congrArg Envelope.sourceIdentity henvelope
    have hview : checkpoint.authorizationViewIdentity = s.catalog.authorizationViewIdentity :=
      congrArg Envelope.authorizationViewIdentity henvelope
    have hbound : Invariant d policy { s with
        rows := s.rows.bindCheckpoint checkpoint .observe
        start := startOf checkpoint.catalogCursor } := by
      refine ⟨h.policySha256, ⟨⟨congrArg some hsource, congrArg some hview⟩, hstanding.2,
        after, deadline, upper, source, view, ?_⟩, h.held⟩
      simp only [bindCheckpoint, hcursor, startOf]
    exact hbound.setWorker trivial
  · exact h.setWorker trivial

/-- A current page of collections moves the row within the baseline or on to the changes. -/
theorem Invariant.commit_collections {page : CollectionPage}
    {items : List (Descriptor × Bool)} (hw : s.workers w = .collections cursor page items)
    (hcurrent : Current d policy s.rows (s.workers w)) :
    Invariant d policy (s.commit d policy w) := by
  have hheld := h.held w
  rw [hw] at hheld hcurrent
  obtain ⟨henvelope, after, deadline, start, upper, source, view, rfl, hnext⟩ := hheld
  simp only [commit, hw]
  split
  · rename_i advanced rows hcommit
    rcases commitBaselinePage_eq_ok hcommit with
      ⟨-, rfl⟩ | ⟨recorded, hrecord, hauthority, rfl⟩
    · exact h.setWorker trivial
    · obtain ⟨-, hcursor, hsource, hview⟩ := requirePageAuthority_eq_ok.1 hauthority
      have hrow := foldlM_recordBaseline_row hrecord
      have hmoved : Invariant d policy { s with rows := { recorded with row := { recorded.row with
          cursor := some page.continuation.cursor
          phase := nextPhase page.continuation } } } := by
        refine ⟨?_, ?_, h.held⟩
        · rw [← h.policySha256, ← hrow]
        · obtain ⟨hstart, happlied⟩ := h.in_baseline hcursor
          have hbound : recorded.row.sourceIdentity = some s.catalog.sourceIdentity ∧
              recorded.row.authorizationViewIdentity =
                some s.catalog.authorizationViewIdentity := by
            rw [hrow]
            exact h.bound hcursor
          cases hcontinuation : page.continuation with
          | next next =>
            rw [hcontinuation] at hnext
            obtain ⟨after, deadline, upper, source, view, rfl⟩ := hnext
            exact ⟨hbound, happlied, after, deadline, upper, source, view, by rw [hstart]; rfl⟩
          | changes next =>
            rw [hcontinuation] at hnext
            refine ⟨hbound, next, start, rfl, hnext.1, hnext.2, hstart.le, ?_⟩
            rw [hstart, Snapshot.visible_self, happlied]
      exact hmoved.setWorker trivial
  · rename_i error hcommit
    refine h.setWorker ?_
    cases error with
    | runtime message => trivial
    | authorityChanged =>
      obtain ⟨hcommitted, hauthority⟩ := commitBaselinePage_authorityChanged.1 hcommit
      rcases hcurrent with hcursor | hcurrent
      · exact hauthority (h.authority henvelope hcursor)
      · exact absurd hcurrent (by rw [hcommitted]; decide)

/-- A current page of changes moves the row over the changes it holds. -/
theorem Invariant.commit_changes {page : ChangePage}
    {evaluated : Option (Descriptor × Bool)} (hw : s.workers w = .changes cursor page evaluated)
    (hcurrent : Current d policy s.rows (s.workers w)) :
    Invariant d policy (s.commit d policy w) := by
  have hheld := h.held w
  rw [hw] at hheld hcurrent
  obtain ⟨hhorizon, after, limit, hafter, hpage⟩ := hheld
  simp only [commit, hw]
  split
  · rename_i advanced rows hcommit
    cases hcommitted : s.rows.changeCommitted d policy page with
    | true =>
      have hsame : rows = s.rows := by
        rw [commitChangePage, if_pos hcommitted] at hcommit
        exact (Prod.mk.inj (Except.ok.inj hcommit)).2.symm
      rw [hsame, if_pos rfl]
      exact h.setWorker trivial
    | false =>
      obtain ⟨hauthority, recorded, hrow, hrows⟩ :
          s.rows.requirePageAuthority d policy cursor page.toEnvelope = .ok () ∧
            ∃ recorded : Admissions, recorded.row = s.rows.row ∧ rows = recorded.follow page := by
        rcases commitChangePage_eq_ok hcommit with
          ⟨hcommitted', -⟩ | ⟨hauthority, ⟨-, hrows⟩ | ⟨change, recorded, -, hrecord, hrows⟩⟩
        · exact absurd hcommitted' (by rw [hcommitted]; decide)
        · exact ⟨hauthority, s.rows, rfl, hrows⟩
        · refine ⟨hauthority, recorded, ?_, hrows⟩
          rw [recordChange_eq_ok hrecord, deliver_row]
      obtain ⟨-, hcursor, -⟩ := requirePageAuthority_eq_ok.1 hauthority
      obtain ⟨hphase, hle, happlied⟩ := h.in_following hcursor hafter
      rw [hrows, if_neg Bool.false_ne_true]
      have hmoved : Invariant d policy { s with
          rows := recorded.follow page
          applied := s.applied ++ page.changes } := by
        refine ⟨?_, ?_, h.held⟩
        · rw [← h.policySha256, ← hrow]
          rfl
        · have hfollowing : (recorded.follow page).row.phase = .following := by
            rw [← hphase, ← hrow]
            rfl
          rw [Standing]
          simp only [hfollowing]
          refine ⟨?_, page.nextCursor, page.throughRevision, rfl, hpage.position, hpage.horizon,
            hle.trans hpage.le, ?_⟩
          · have hbound := h.bound hcursor
            rw [Bound, ← hrow] at hbound
            exact hbound
          · rw [happlied, hpage.changes, Snapshot.visible_append hle hpage.le]
      exact hmoved.setWorker trivial
  · rename_i error hcommit
    refine h.setWorker ?_
    cases error with
    | runtime message => trivial
    | authorityChanged =>
      obtain ⟨hcommitted, hauthority⟩ := commitChangePage_authorityChanged.1 hcommit
      rcases hcurrent with hcursor | hcurrent
      · exact hauthority (h.authority hpage.envelope hcursor)
      · exact absurd hcurrent (by rw [hcommitted]; decide)

end

omit [DecidableEq ω] in
/-- The catalog moves on under its workers. -/
theorem Invariant.withCatalog (h : Invariant d policy s)
    (henvelope : catalog.toEnvelope = s.catalog.toEnvelope)
    (hprojected : catalog.projected = s.catalog.projected) :
    Invariant d policy { s with catalog } := by
  refine ⟨h.policySha256, ?_, fun w => ?_⟩
  · have hstanding := h.standing
    have hvisible : ∀ after through,
        catalog.visible after through = s.catalog.visible after through := by
      intro after through
      simp only [Snapshot.visible, Snapshot.changesAt, hprojected]
    simpa only [Standing, Bound, henvelope, hvisible] using hstanding
  · have hheld := h.held w
    cases hw : s.workers w with
    | changes cursor page evaluated =>
      rw [hw] at hheld
      obtain ⟨hhorizon, after, limit, hafter, hpage⟩ := hheld
      exact ⟨hhorizon, after, limit, hafter, hpage.of_same henvelope hprojected⟩
    | rebaselining =>
      rw [hw] at hheld
      exact hheld.elim
    | idle => trivial
    | _ => simpa only [hw, Held, henvelope] using hheld

/-- An orderly step keeps the invariant. -/
theorem Invariant.step (h : Invariant d policy s) {action : AdmissionAction ω}
    (horderly : Orderly settings d policy s action) :
    Invariant d policy (s.step settings d policy action) := by
  cases action with
  | load w => exact h.setWorker h.horizon
  | fetch w contains =>
    have hheld := h.held w
    simp only [AdmissionSystem.step]
    split
    · rename_i phase cursor hw
      rw [hw] at hheld
      refine h.setWorker (afterAnswer_held hheld ?_)
      rw [Orderly, hw] at horderly
      exact horderly
    · exact h
  | commit w =>
    cases hw : s.workers w with
    | checkpointed checkpoint => exact h.commit_checkpointed hw
    | collections cursor page items => exact h.commit_collections hw horderly
    | changes cursor page evaluated => exact h.commit_changes hw horderly
    | idle => simpa only [AdmissionSystem.step, commit, hw] using h
    | loaded phase cursor => simpa only [AdmissionSystem.step, commit, hw] using h
    | rebaselining => simpa only [AdmissionSystem.step, commit, hw] using h
  | rebaseline w =>
    cases hw : s.workers w with
    | rebaselining =>
      have hheld := h.held w
      rw [hw] at hheld
      exact hheld.elim
    | _ => simpa only [AdmissionSystem.step, hw] using h
  | crash w => exact h.setWorker trivial
  | publish => exact h.withCatalog rfl rfl
  | reap retained => exact h.withCatalog rfl rfl
  | edit collections => exact h.withCatalog rfl rfl
  | tick => exact h.withCatalog rfl rfl

/-- Orderly runs keep the invariant. -/
theorem Invariant.run (h : Invariant d policy s) {actions : List (AdmissionAction ω)}
    (horderly : OrderlyRun settings d policy s actions) :
    Invariant d policy (s.run settings d policy actions) := by
  induction actions generalizing s with
  | nil => exact h
  | cons action actions ih => exact ih (h.step horderly.1) horderly.2

/-- A worker that met an error that requires a new baseline resets the policy. -/
theorem step_rebaseline :
    ((s.setWorker w .rebaselining).step settings d policy (.rebaseline w)).rows.row.phase =
      .resetRequired := by
  simp only [step, setWorker, Function.update_self]
  rfl

/-- A step that is not orderly resets the policy as soon as its worker goes on. -/
theorem reset_of_not_orderly {action : AdmissionAction ω}
    (h : ¬ Orderly settings d policy s action) :
    ∃ w, (s.run settings d policy [action, .rebaseline w]).rows.row.phase = .resetRequired := by
  cases action with
  | fetch w contains =>
    refine ⟨w, ?_⟩
    rw [Orderly] at h
    cases hw : s.workers w with
    | loaded phase cursor =>
      rw [hw, Answered] at h
      push Not at h
      obtain ⟨error, hanswer, hreset⟩ := h
      have hstep : s.step settings d policy (.fetch w contains) = s.setWorker w .rebaselining := by
        simp only [step, hw, hanswer, afterAnswer, if_pos hreset]
      simp only [run, List.foldl_cons, List.foldl_nil, hstep]
      exact step_rebaseline
    | _ =>
      rw [hw] at h
      exact (h trivial).elim
  | commit w =>
    refine ⟨w, ?_⟩
    rw [Orderly] at h
    have hstep : s.step settings d policy (.commit w) = s.setWorker w .rebaselining := by
      cases hw : s.workers w with
      | collections cursor page items =>
        rw [hw, Current, not_or] at h
        have herror : s.rows.commitBaselinePage d policy cursor page items =
            .error .authorityChanged := by
          refine commitBaselinePage_authorityChanged.2
            ⟨Bool.not_eq_true _ ▸ h.2, fun hauthority => h.1 ?_⟩
          exact (requirePageAuthority_eq_ok.1 hauthority).2.1
        simp only [step, commit, hw, herror, afterError]
      | changes cursor page evaluated =>
        rw [hw, Current, not_or] at h
        have herror : s.rows.commitChangePage d policy cursor page evaluated =
            .error .authorityChanged := by
          refine commitChangePage_authorityChanged.2
            ⟨Bool.not_eq_true _ ▸ h.2, fun hauthority => h.1 ?_⟩
          exact (requirePageAuthority_eq_ok.1 hauthority).2.1
        simp only [step, commit, hw, herror, afterError]
      | _ =>
        rw [hw] at h
        exact (h trivial).elim
    simp only [run, List.foldl_cons, List.foldl_nil, hstep]
    exact step_rebaseline
  | _ => exact (h trivial).elim

/-- The policy is not reset, and the changes that were recorded are those that the principal
sees from the start of the baseline up to the row's cursor, each of them once. -/
structure Exact (s : AdmissionSystem ω) : Prop where
  phase : s.rows.row.phase ≠ .resetRequired
  unfollowed : s.rows.row.phase ≠ .following → s.applied = []
  followed : s.rows.row.phase = .following → ∃ cursor position,
    s.rows.row.cursor = some cursor ∧ cursor.After position ∧ s.start ≤ position ∧
      s.applied = s.catalog.visible s.start position
  once : s.applied.Pairwise fun a b => a.revision < b.revision

omit [DecidableEq ω] in
theorem Invariant.exact (h : Invariant d policy s) : s.Exact := by
  have hstanding := h.standing
  rw [Standing] at hstanding
  split at hstanding
  · rename_i hphase
    refine ⟨by rw [hphase]; nofun, fun _ => hstanding.2, fun hf => ?_, ?_⟩
    · rw [hphase] at hf
      cases hf
    · rw [hstanding.2]
      exact List.Pairwise.nil
  · rename_i hphase
    refine ⟨by rw [hphase]; nofun, fun _ => hstanding.2.1, fun hf => ?_, ?_⟩
    · rw [hphase] at hf
      cases hf
    · rw [hstanding.2.1]
      exact List.Pairwise.nil
  · rename_i hphase
    obtain ⟨-, cursor, position, hcursor, hafter, -, hle, happlied⟩ := hstanding
    refine ⟨by rw [hphase]; nofun, fun hf => (hf hphase).elim,
      fun _ => ⟨cursor, position, hcursor, hafter, hle, happlied⟩, ?_⟩
    rw [happlied]
    exact Snapshot.visible_pairwise ..
  · exact hstanding.elim

end AdmissionSystem

/-! ## Two workers on one page -/

namespace AdmissionSystem.Sample

open Admissions.Sample

/-- Cursors live for ten seconds. -/
def settings : Settings := ⟨10, 10, 100⟩

/-- A catalog whose first event shows a collection. -/
def catalog : Snapshot where
  sourceIdentity := ['s']
  authorizationViewIdentity := ['v']
  committed := 0
  retained := 0
  projected _ := some (.upsert (collection 1 1))
  collections := []
  now := 0

/-- The policy was just configured. -/
def system : AdmissionSystem Bool where
  catalog := catalog
  rows := Admissions.Sample.rows
  workers _ := .idle
  start := 0
  applied := []

/-- A worker advances the policy without being disturbed. -/
def advance (w : Bool) : List (AdmissionAction Bool) :=
  [.load w, .fetch w (answers true), .commit w]

/-- The policy is bound and its baseline read, while an event is published. -/
def bootstrap : List (AdmissionAction Bool) := advance true ++ .publish :: advance true

/-- Two workers read the page of the event at different times and commit it. -/
def race : List (AdmissionAction Bool) :=
  [.load true, .load false, .fetch true (answers true), .tick, .fetch false (answers true),
    .commit false, .commit true, .rebaseline true]

/-- A worker reads the page of the event and commits it before the other one loads the row. -/
def turns : List (AdmissionAction Bool) := bootstrap ++ advance true ++ advance false

end AdmissionSystem.Sample

namespace AdmissionSystem

end AdmissionSystem

end Riverhog.Stove0
