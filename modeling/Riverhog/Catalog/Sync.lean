import Riverhog.Core.Python

/-!
# Catalog synchronization

The three read operations over the published catalog log: a checkpoint, pages of the visible
collections and pages of the changes behind a cursor. A cursor is the signed canonical JSON of
its payload, so two cursors are equal exactly when their payloads are; the fields that are the
same for every cursor of one principal are left out.

A `Snapshot` is what one principal reads at one time: the published events are those with
the revisions after `retained` up to `committed`, and `projected` says what the principal sees
of the event with a revision.
-/

namespace Riverhog.Catalog

open Core List

/-- The codes of `RiverhogError`. -/
inductive ErrorCode where
  | badRequest | forbidden | unauthorized | catalogSyncCursorExpired | catalogSyncHistoryExpired
  | catalogSyncSourceChanged | catalogSyncViewChanged | preconditionFailed
  | other (code : String)
  deriving DecidableEq

/-- `RiverhogError`. -/
structure RiverhogError where
  code : ErrorCode
  message : String
  deriving DecidableEq

/-- `CatalogSyncDescriptor`. -/
structure Descriptor where
  collectionId : Nat
  archiveRootSha256 : Text
  contentIdentity : Text
  description : Option Text
  descriptionRevision : Nat
  descriptionIdentity : Text
  tagRevision : Nat
  tagSetIdentity : Text
  revision : Nat
  deriving DecidableEq

/-- `CatalogSyncChange`: a `CatalogSyncUpsert` or a `CatalogSyncDelete`. -/
inductive Change where
  | upsert (descriptor : Descriptor)
  | delete (collectionId revision : Nat)
  deriving DecidableEq

namespace Change

/-- `change.collection_id`. -/
def collectionId : Change → Nat
  | upsert descriptor => descriptor.collectionId
  | delete collectionId _ => collectionId

/-- `int(change.revision)`. -/
def revision : Change → Nat
  | upsert descriptor => descriptor.revision
  | delete _ revision => revision

/-- Whether a change is a `CatalogSyncDelete`. -/
def isDelete : Change → Bool
  | upsert _ => false
  | delete .. => true

/-- The change that an event with a revision is listed as. -/
def listed (revision : Nat) : Change → Change
  | upsert descriptor => upsert { descriptor with revision }
  | delete collectionId _ => delete collectionId revision

@[simp] theorem revision_listed (r : Nat) (change : Change) : (change.listed r).revision = r := by
  cases change <;> rfl

end Change

/-- The payload of a cursor, by its mode. -/
inductive Cursor where
  | catalog (after deadline start upper : Nat) (source view : Text)
  | changes (after : Nat) (bootstrap : Bool) (deadline : Nat) (through : Option Nat)
      (source view : Text)
  deriving DecidableEq

namespace Cursor

/-- A cursor over the changes stands at a revision. -/
def After (revision : Nat) : Cursor → Prop
  | catalog .. => False
  | changes after .. => after = revision

/-- The horizon of a cursor is not behind its position. -/
def Horizon : Cursor → Prop
  | changes after _ _ (some through) .. => after ≤ through
  | _ => True

end Cursor

/-- The source and the authorization view that a page was read under. -/
structure Envelope where
  sourceIdentity : Text
  authorizationViewIdentity : Text
  deriving DecidableEq

/-- `CatalogSyncCheckpoint`. -/
structure Checkpoint extends Envelope where
  catalogCursor : Cursor
  deriving DecidableEq

/-- The continuation of a page of collections: `next_cursor` or `changes_cursor`. -/
inductive Continuation where
  | next (cursor : Cursor)
  | changes (cursor : Cursor)
  deriving DecidableEq

/-- `page.next_cursor or page.changes_cursor`. -/
def Continuation.cursor : Continuation → Cursor
  | next cursor | changes cursor => cursor

/-- `CatalogSyncCollectionPage`. -/
structure CollectionPage extends Envelope where
  collections : List Descriptor
  continuation : Continuation
  deriving DecidableEq

/-- `CatalogSyncChangePage`. -/
structure ChangePage extends Envelope where
  changes : List Change
  nextCursor : Cursor
  caughtUp : Bool
  throughRevision : Nat
  deriving DecidableEq

/-- The settings of the service. -/
structure Settings where
  bootstrapLifetime : Nat
  cursorLifetime : Nat
  pageSizeMax : Nat

/-- What one principal reads of the catalog in one snapshot, and the time of the snapshot. The
collections are in the order of their ids. -/
structure Snapshot extends Envelope where
  committed : Nat
  retained : Nat
  projected : Nat → Option Change
  collections : List Descriptor
  now : Nat

/-- `CATALOG_SYNC_PAGE_SIZE_MAX`. -/
def catalogSyncPageSizeMax : Nat := 100

/-- `_validate_limit`. -/
def validateLimit (settings : Settings) (limit : Nat) : Except RiverhogError Unit :=
  if 1 ≤ limit ∧ limit ≤ min settings.pageSizeMax catalogSyncPageSizeMax then .ok ()
  else .error ⟨.badRequest, "catalog synchronization page size is outside the configured bound"⟩

namespace Snapshot

variable (settings : Settings) (c : Snapshot)

/-- The checks of `_decode_cursor` after the mode. -/
def checkCursor (source view : Text) (deadline : Nat) : Except RiverhogError Unit :=
  if source ≠ c.sourceIdentity then
    .error ⟨.catalogSyncSourceChanged, "catalog synchronization source identity changed"⟩
  else if view ≠ c.authorizationViewIdentity then
    .error ⟨.catalogSyncViewChanged, "catalog synchronization authorization view changed"⟩
  else if deadline ≤ c.now then
    .error ⟨.catalogSyncCursorExpired, "catalog synchronization cursor expired"⟩
  else .ok ()

/-- `_require_retained`. -/
def requireRetained (position : Nat) : Except RiverhogError Unit :=
  if position < c.retained then
    .error ⟨.catalogSyncHistoryExpired, "catalog synchronization history expired"⟩
  else if c.committed < position then
    .error ⟨.catalogSyncSourceChanged,
      "catalog synchronization position is ahead of the current source"⟩
  else .ok ()

/-- `checkpoint`. -/
def checkpoint : Checkpoint where
  toEnvelope := c.toEnvelope
  catalogCursor := .catalog 0 (c.now + settings.bootstrapLifetime) c.committed
    (c.collections.getLast?.elim 0 Descriptor.collectionId) c.sourceIdentity
    c.authorizationViewIdentity

/-- The page of `collections` behind a decoded cursor. -/
def collectionsPage (after deadline start upper limit : Nat) : CollectionPage :=
  let rows := c.collections.filter fun d => after < d.collectionId ∧ d.collectionId ≤ upper
  let pageRows := rows.take limit
  { toEnvelope := c.toEnvelope
    collections := pageRows
    continuation :=
      if limit < rows.length then
        .next (.catalog (pageRows.getLast?.elim after Descriptor.collectionId) deadline start
          upper c.sourceIdentity c.authorizationViewIdentity)
      else
        .changes (.changes start true deadline (some c.committed) c.sourceIdentity
          c.authorizationViewIdentity) }

/-- `collections`. -/
def listCollections (cursor : Cursor) (limit : Nat) : Except RiverhogError CollectionPage :=
  validateLimit settings limit >>= fun _ =>
  match cursor with
  | .changes .. => .error ⟨.badRequest, "catalog synchronization cursor is invalid"⟩
  | .catalog after deadline start upper source view => do
    c.checkCursor source view deadline
    c.requireRetained start
    .ok (c.collectionsPage after deadline start upper limit)

/-- The revisions of the published events that are still stored. -/
def revisions : List Nat := range' (c.retained + 1) (c.committed - c.retained)

/-- `_catalog_change_revision_statement`. -/
def scanned (after through limit : Nat) : List Nat :=
  (c.revisions.filter fun r => after < r ∧ r ≤ through).take (limit + 1)

/-- What the principal sees of the events with some revisions. -/
def changesAt (revisions : List Nat) : List Change :=
  revisions.filterMap fun r => (c.projected r).map (Change.listed r)

/-- The page of `changes` behind a decoded cursor and up to a horizon. -/
def changesPage (after : Nat) (bootstrap : Bool) (deadline through limit : Nat) :
    Except RiverhogError ChangePage :=
  let scanned := c.scanned after through limit
  let hasMore : Bool := limit < scanned.length
  let pageRevisions := scanned.take limit
  if pageRevisions = [] ∧ after < through ∨
      pageRevisions ≠ range' (after + 1) pageRevisions.length then
    .error ⟨.catalogSyncHistoryExpired,
      "catalog synchronization history has a gap before its horizon"⟩
  else
    let pageThrough := if hasMore then pageRevisions.getLast?.getD through else through
    .ok
      { toEnvelope := c.toEnvelope
        changes := c.changesAt pageRevisions
        nextCursor := .changes pageThrough (bootstrap && hasMore)
          (if bootstrap && hasMore then deadline else c.now + settings.cursorLifetime)
          (if hasMore then some through else none) c.sourceIdentity c.authorizationViewIdentity
        caughtUp := !hasMore
        throughRevision := pageThrough }

/-- `changes`. -/
def listChanges (cursor : Cursor) (limit : Nat) : Except RiverhogError ChangePage :=
  validateLimit settings limit >>= fun _ =>
  match cursor with
  | .catalog .. => .error ⟨.badRequest, "catalog synchronization cursor is invalid"⟩
  | .changes after bootstrap deadline rawThrough source view => do
    c.checkCursor source view deadline
    c.requireRetained after
    let through := rawThrough.getD c.committed
    if c.committed < through then
      .error ⟨.catalogSyncSourceChanged,
        "catalog synchronization horizon is ahead of the current source"⟩
    else c.changesPage settings after bootstrap deadline through limit

/-! ## What a page holds -/

/-- The changes that the principal sees after one revision up to another one. -/
def visible (after through : Nat) : List Change :=
  c.changesAt (range' (after + 1) (through - after))

variable {settings : Settings} {c : Snapshot}

theorem visible_self (n : Nat) : c.visible n n = [] := by simp [visible, changesAt]

/-- The changes of two adjacent stretches of the log are those of the whole stretch. -/
theorem visible_append {lo mid hi : Nat} (hlo : lo ≤ mid) (hhi : mid ≤ hi) :
    c.visible lo mid ++ c.visible mid hi = c.visible lo hi := by
  have hsplit : range' (lo + 1) (hi - lo) =
      range' (lo + 1) (mid - lo) ++ range' (mid + 1) (hi - mid) := by
    have hstart : mid + 1 = lo + 1 + (mid - lo) := by omega
    have hlength : hi - lo = mid - lo + (hi - mid) := by omega
    rw [hstart, hlength, range'_append_1]
  simp only [visible, hsplit, changesAt, filterMap_append]

/-- No revision is listed twice. -/
theorem visible_pairwise (lo hi : Nat) :
    (c.visible lo hi).Pairwise fun a b => a.revision < b.revision := by
  refine Pairwise.filterMap _ (fun r r' hlt a ha b hb => ?_) pairwise_lt_range'
  obtain ⟨_, -, rfl⟩ := Option.map_eq_some_iff.1 ha
  obtain ⟨_, -, rfl⟩ := Option.map_eq_some_iff.1 hb
  rwa [Change.revision_listed, Change.revision_listed]

variable {page : ChangePage} {after limit through : Nat} {u : Unit} {cursor : Cursor}

/-- The rows of a stretch of the log that is stored are its revisions. -/
theorem filter_revisions (hafter : c.retained ≤ after) (hthrough : through ≤ c.committed) :
    (c.revisions.filter fun r => after < r ∧ r ≤ through) =
      range' (after + 1) (through - after) := by
  refine Perm.eq_of_pairwise (fun a b _ _ h h' => (Nat.lt_asymm h h').elim)
    (Pairwise.filter _ pairwise_lt_range') pairwise_lt_range' ?_
  refine (perm_ext_iff_of_nodup (Nodup.filter _ nodup_range') nodup_range').2 fun r => ?_
  simp only [mem_filter, mem_range'_1, decide_eq_true_eq]
  omega

/-- A page of changes at a cursor holds what the principal sees of the revisions that it moves
the cursor over. -/
structure PageAt (c : Snapshot) (after limit : Nat) (page : ChangePage) : Prop where
  envelope : page.toEnvelope = c.toEnvelope
  le : after ≤ page.throughRevision
  le_limit : page.throughRevision ≤ after + limit
  changes : page.changes = c.visible after page.throughRevision
  position : page.nextCursor.After page.throughRevision
  horizon : page.nextCursor.Horizon

/-- What a page holds does not depend on how far the catalog has moved on. -/
theorem PageAt.of_same {c' : Snapshot} (h : c.PageAt after limit page)
    (henvelope : c'.toEnvelope = c.toEnvelope) (hprojected : c'.projected = c.projected) :
    c'.PageAt after limit page := by
  refine ⟨h.envelope.trans henvelope.symm, h.le, h.le_limit, ?_, h.position, h.horizon⟩
  rw [h.changes, visible, visible, changesAt, changesAt, hprojected]

theorem take_range'_min (start length n : Nat) :
    (range' start length).take n = range' start (min n length) := by
  rcases Nat.le_total length n with h | h
  · rw [take_range'_of_length_le h, Nat.min_eq_right h]
  · rw [take_range'_of_length_ge h, Nat.min_eq_left h]

/-- The revisions that are read for a page, when the log is stored from the cursor on. -/
theorem scanned_eq (hafter : c.retained ≤ after) (hthrough : through ≤ c.committed) :
    c.scanned after through limit = range' (after + 1) (min (limit + 1) (through - after)) := by
  rw [scanned, filter_revisions hafter hthrough, take_range'_min]

theorem changesPage_spec {deadline : Nat} {bootstrap : Bool} (hafter : c.retained ≤ after)
    (hthrough : after ≤ through) (hcommitted : through ≤ c.committed) (hlimit : 1 ≤ limit)
    (h : c.changesPage settings after bootstrap deadline through limit = .ok page) :
    c.PageAt after limit page := by
  have hscanned : c.scanned after through limit = _ := scanned_eq hafter hcommitted
  simp only [changesPage, hscanned, length_range', take_range'_min] at h
  split at h
  · cases h
  obtain rfl := Except.ok.inj h
  rcases Nat.lt_or_ge limit (through - after) with hmore | hlast
  · -- the page is full and more revisions follow it
    have hlen : min (limit + 1) (through - after) = limit + 1 := by omega
    have hpage : min limit (limit + 1) = limit := by omega
    have hne : limit ≠ 0 := by omega
    have hlast : after + 1 + limit - 1 = after + limit := by omega
    simp only [hlen, hpage, getLast?_range', hne, hlast, Nat.lt_succ_self, decide_true,
      if_true, if_false, Option.getD_some]
    refine ⟨rfl, Nat.le_add_right .., le_rfl, ?_, rfl, ?_⟩
    · simp only [visible, Nat.add_sub_cancel_left]
    · show after + limit ≤ through
      omega
  · have hlen : min (limit + 1) (through - after) = through - after := by omega
    have hpage : min limit (through - after) = through - after := by omega
    have hmore : ¬ limit < through - after := by omega
    have hnear : through ≤ after + limit := by omega
    simp only [hlen, hpage, hmore, decide_false, Bool.false_eq_true, if_false]
    exact ⟨rfl, hthrough, hnear, rfl, rfl, trivial⟩

theorem checkCursor_eq_ok {source view : Text} {deadline : Nat} :
    c.checkCursor source view deadline = .ok u ↔
      source = c.sourceIdentity ∧ view = c.authorizationViewIdentity ∧ c.now < deadline := by
  rw [checkCursor]
  split_ifs with hsource hview hdeadline
  · simp [hsource]
  · simp [hview]
  · simp [hdeadline]
  · simp_all

theorem requireRetained_eq_ok {position : Nat} :
    c.requireRetained position = .ok u ↔ c.retained ≤ position ∧ position ≤ c.committed := by
  rw [requireRetained]
  split_ifs with hretained hcommitted
  · simp [hretained]
  · simp [hcommitted]
  · simp_all

theorem validateLimit_eq_ok :
    validateLimit settings limit = .ok u ↔
      1 ≤ limit ∧ limit ≤ min settings.pageSizeMax catalogSyncPageSizeMax := by
  rw [validateLimit]
  split_ifs with h
  · exact iff_of_true rfl h
  · exact iff_of_false nofun h

/-- A page of changes that is read at a cursor holds what the principal sees of the revisions
that it moves the cursor over. -/
theorem listChanges_spec (hcursor : cursor.After after)
    (hhorizon : cursor.Horizon) (h : c.listChanges settings cursor limit = .ok page) :
    c.PageAt after limit page := by
  cases cursor with
  | catalog => exact hcursor.elim
  | changes position bootstrap deadline raw source view =>
    obtain rfl : position = after := hcursor
    simp only [listChanges, bind_eq_ok, validateLimit_eq_ok, checkCursor_eq_ok,
      requireRetained_eq_ok] at h
    obtain ⟨-, ⟨hlimit, -⟩, -, -, -, ⟨hretained, hcommitted⟩, h⟩ := h
    split at h
    · cases h
    · rename_i hthrough
      refine changesPage_spec hretained ?_ (Nat.le_of_not_lt hthrough) hlimit h
      cases raw with
      | none => exact hcommitted
      | some through => exact hhorizon

/-- A page of collections is read at a cursor over the collections. -/
theorem listCollections_spec {page : CollectionPage}
    (h : c.listCollections settings cursor limit = .ok page) :
    ∃ after deadline start upper source view,
      cursor = .catalog after deadline start upper source view ∧ 1 ≤ limit ∧
      start ≤ c.committed ∧ page = c.collectionsPage after deadline start upper limit := by
  cases cursor with
  | changes => simp [listCollections, bind_eq_ok] at h
  | catalog after deadline start upper source view =>
    simp only [listCollections, bind_eq_ok, validateLimit_eq_ok, requireRetained_eq_ok] at h
    obtain ⟨-, ⟨hlimit, -⟩, -, -, -, ⟨-, hcommitted⟩, h⟩ := h
    exact ⟨after, deadline, start, upper, source, view, rfl, hlimit, hcommitted,
      (Except.ok.inj h).symm⟩

/-! ## Following the changes -/

/-- The changes that a client reads page by page, each page from the catalog of its time, and the
cursor that it is left with. -/
def followChanges (settings : Settings) :
    Cursor → List (Snapshot × Nat) → Except RiverhogError (List Change × Cursor)
  | cursor, [] => .ok ([], cursor)
  | cursor, (c, limit) :: reads => do
    let page ← c.listChanges settings cursor limit
    let (changes, last) ← followChanges settings page.nextCursor reads
    return (page.changes ++ changes, last)

/-- While the published events stay as they are, a client that follows the changes reads what its
principal sees of the revisions that its cursor moves over, each once and in their order. -/
theorem followChanges_exact {reads : List (Snapshot × Nat)} {changes : List Change} {last : Cursor}
    (hlog : ∀ read ∈ reads, read.1.projected = c.projected) (hcursor : cursor.After after)
    (hhorizon : cursor.Horizon) (h : followChanges settings cursor reads = .ok (changes, last)) :
    ∃ through, after ≤ through ∧ last.After through ∧ changes = c.visible after through ∧
      changes.Pairwise fun a b => a.revision < b.revision := by
  suffices ∃ through, after ≤ through ∧ last.After through ∧ changes = c.visible after through by
    obtain ⟨through, hle, hlast, rfl⟩ := this
    exact ⟨through, hle, hlast, rfl, c.visible_pairwise after through⟩
  induction reads generalizing cursor after changes with
  | nil =>
    obtain ⟨rfl, rfl⟩ := Prod.ext_iff.1 (Except.ok.inj h)
    exact ⟨after, le_rfl, hcursor, (visible_self after).symm⟩
  | cons read reads ih =>
    rw [forall_mem_cons] at hlog
    simp only [followChanges, bind_eq_ok] at h
    obtain ⟨page, hpage, ⟨more, last'⟩, hmore, h⟩ := h
    obtain ⟨rfl, rfl⟩ := Prod.ext_iff.1 (Except.ok.inj h)
    have hread := listChanges_spec hcursor hhorizon hpage
    obtain ⟨through, hle, hlast, rfl⟩ := ih hlog.2 hread.position hread.horizon hmore
    refine ⟨through, hread.le.trans hle, hlast, ?_⟩
    rw [← visible_append hread.le hle, hread.changes]
    simp only [visible, changesAt, hlog.1]

/-- A log of deletions, of which some revisions are published. -/
def deletions (committed : Nat) : Snapshot :=
  ⟨⟨[], []⟩, committed, 0, fun r => some (.delete r 0), [], 0⟩

/-- A revision is published between two pages. -/
theorem followChanges_deletions : ∃ changes last through,
    followChanges ⟨1, 1, 2⟩ (.changes 0 false 1 none [] []) [(deletions 3, 2), (deletions 4, 2)] =
      .ok (changes, last) ∧ changes = (deletions 4).visible 0 through := by
  obtain ⟨through, -, -, h, -⟩ := @followChanges_exact ⟨1, 1, 2⟩ (deletions 4) 0
    (.changes 0 false 1 none [] []) [(deletions 3, 2), (deletions 4, 2)] _ _
    (by simp [deletions]) rfl trivial rfl
  exact ⟨_, _, through, rfl, h⟩

end Snapshot

end Riverhog.Catalog
