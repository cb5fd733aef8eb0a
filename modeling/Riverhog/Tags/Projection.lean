import Riverhog.Core.Python
import Riverhog.Core.Runs

/-!
# The searchable tag projection

Three services change the membership rows and the shared `collection_count` of a tag: the settlement
of a tag mutation, the initial publication of a collection and its deletion. Each of them locks only
its own collection. The first two read the tag row without a lock and write back the count they read
plus or minus one; the deletion lowers the stored count in the database. A tag is identified with
its digest, and the set at a collection's `tag_root` with the tags in it.
-/

namespace Riverhog.Tags

open Core Function List

section Model

variable {τ : Type} [LinearOrder τ]

/-- The two actions of a tag mutation. -/
inductive TagAction where
  | add | remove
  deriving DecidableEq

/-- The set that an action makes of a tag set. -/
def TagAction.apply (action : TagAction) (tag : τ) (tags : Finset τ) : Finset τ :=
  match action with
  | .add => insert tag tags
  | .remove => tags.erase tag

/-- An action changes a tag set. -/
def TagAction.Changes (action : TagAction) (tag : τ) (tags : Finset τ) : Prop :=
  match action with
  | .add => tag ∉ tags
  | .remove => tag ∈ tags

instance (action : TagAction) (tag : τ) (tags : Finset τ) : Decidable (action.Changes tag tags) :=
  match action with
  | .add => inferInstanceAs (Decidable (tag ∉ tags))
  | .remove => inferInstanceAs (Decidable (tag ∈ tags))

/-- The active row of `CollectionTagMutationRecord` with the set at its result root. -/
structure TagMutation (τ : Type) where
  action : TagAction
  tag : τ
  result : Finset τ

/-- How far a collection is: the staged tags its publication has still to project, published, being
deleted, or gone. -/
inductive CatalogPhase (τ : Type) where
  | tags (pending : List τ)
  | published | deleting | deleted

/-- A collection row with the set at its `tag_root`. -/
structure TaggedCollection (τ : Type) where
  phase : CatalogPhase τ
  tagSet : Finset τ
  mutation : Option (TagMutation τ)

/-- The transactions that read tag rows and write them back. -/
inductive ProjectionWork (τ : Type) where
  | settle (mutation : TagMutation τ)
  | advance

/-- A transaction with the tag rows it has read and the tags it has still to read. -/
structure ProjectionTransaction (τ : Type) where
  work : ProjectionWork τ
  reads : List (τ × Option Nat)
  rest : List τ

/-- The catalog, with at most one transaction for a collection, which holds its row lock, and the
memberships that each deletion worker has selected. -/
structure TagCatalog (τ : Type) where
  collections : Nat → Option (TaggedCollection τ)
  memberships : Finset (Nat × τ)
  counts : τ → Option Nat
  transactions : Nat → Option (ProjectionTransaction τ)
  deletions : Nat → Option (Nat × List τ)

/-- The rows a transaction writes: memberships of its collection, and for a tag the row it read with
the count it stores. -/
structure TagWrites (τ : Type) where
  added : List τ
  removed : List τ
  rows : List (τ × Option Nat × Nat)

/-- The writes of `_settle_mutation`; `none` is a violation of `collection_count >= 0`. -/
def settleWrites (memberships : Finset (Nat × τ)) (collection : Nat) (action : TagAction)
    (reads : List (τ × Option Nat)) : Option (TagWrites τ) :=
  match reads, action with
  | [(tag, row)], .add =>
    if (collection, tag) ∈ memberships then
      some ⟨[], [], if row.isNone then [(tag, row, 0)] else []⟩
    else
      some ⟨[tag], [], [(tag, row, row.getD 0 + 1)]⟩
  | [(tag, row)], .remove =>
    if (collection, tag) ∈ memberships then
      match row with
      | none => some ⟨[], [tag], []⟩
      | some 0 => none
      | some (n + 1) => some ⟨[], [tag], [(tag, some (n + 1), n)]⟩
    else
      some ⟨[], [], []⟩
  | _, _ => none

/-- The writes of one batch of `_advance_catalog_tags`; `none` is a membership that exists. -/
def advanceWrites (memberships : Finset (Nat × τ)) (collection : Nat)
    (reads : List (τ × Option Nat)) : Option (TagWrites τ) :=
  if reads.any fun read => (collection, read.1) ∈ memberships then none
  else some ⟨reads.map Prod.fst, [], reads.map fun read => (read.1, read.2, read.2.getD 0 + 1)⟩

/-- The writes of a transaction of a collection. -/
def ProjectionTransaction.writes (transaction : ProjectionTransaction τ)
    (memberships : Finset (Nat × τ)) (collection : Nat) : Option (TagWrites τ) :=
  match transaction.work with
  | .settle mutation => settleWrites memberships collection mutation.action transaction.reads
  | .advance => advanceWrites memberships collection transaction.reads

/-- The count of a tag after a transaction's rows are stored. -/
def storedCount (counts : τ → Option Nat) (rows : List (τ × Option Nat × Nat)) (tag : τ) :
    Option Nat :=
  match rows.find? fun row => row.1 = tag with
  | some row => some row.2.2
  | none => counts tag

/-- Writes a transaction's rows: a row that was absent when it was read is inserted, which fails if
it exists now; a row that was present gets the computed count. -/
def TagCatalog.flush (s : TagCatalog τ) (collection : Nat) (writes : TagWrites τ) :
    Option (TagCatalog τ) :=
  if writes.rows.any fun row => row.2.1.isNone && (s.counts row.1).isSome then none
  else some { s with
    memberships := (s.memberships ∪ writes.added.toFinset.image (Prod.mk collection)) \
      writes.removed.toFinset.image (Prod.mk collection)
    counts := storedCount s.counts writes.rows }

/-- The collection row after its transaction: the result of the settled mutation, or the staged tags
after the batch. -/
def TaggedCollection.advanced (collection : TaggedCollection τ)
    (transaction : ProjectionTransaction τ) : TaggedCollection τ :=
  match transaction.work, collection.phase with
  | .settle mutation, _ => { collection with tagSet := mutation.result, mutation := none }
  | .advance, .tags pending =>
    { collection with phase := .tags (pending.drop transaction.reads.length) }
  | .advance, _ => collection

/-- The catalog that the transaction of a collection commits; `none` is a transaction that has still
to read or that fails. -/
def TagCatalog.written (s : TagCatalog τ) (collection : Nat) : Option (TagCatalog τ) :=
  match s.transactions collection, s.collections collection with
  | some transaction, some row =>
    if transaction.rest.isEmpty then
      (transaction.writes s.memberships collection).bind fun writes =>
        (s.flush collection writes).map fun s' => { s' with
          collections := update s'.collections collection (row.advanced transaction)
          transactions := update s'.transactions collection none }
    else none
  | _, _ => none

/-- The number of staged tags of one publication batch. -/
def finalizationFileBatch : Nat := 1024

/-- The number of memberships of one deletion batch. -/
def catalogDeleteBatch : Nat := 100

section

variable (s : TagCatalog τ)

/-- The tags of a collection's membership rows in digest order. -/
def TagCatalog.membershipsOf (collection : Nat) : List τ :=
  sortedSet ((s.memberships.filter fun row => row.1 = collection).image Prod.snd)

/-- The steps of the services and of their transactions. A deletion worker's steps carry its
number. -/
inductive TagStep (τ : Type) where
  | openUpload (collection : Nat) (staged : Finset τ)
  | mutate (collection : Nat) (action : TagAction) (tag : τ)
  | beginSettle (collection : Nat)
  | beginAdvance (collection : Nat)
  | readTag (collection : Nat)
  | commit (collection : Nat)
  | rollback (collection : Nat)
  | publish (collection : Nat)
  | delete (collection : Nat)
  | selectMemberships (worker collection : Nat)
  | deleteMemberships (worker : Nat)
  | finishDeletion (collection : Nat)

/-- Replaces a collection row. -/
def TagCatalog.setCollection (collection : Nat) (row : TaggedCollection τ) :
    TagCatalog τ :=
  { s with collections := update s.collections collection row }

/-- Replaces the transaction that holds a collection's row lock. -/
def TagCatalog.setTransaction (collection : Nat)
    (transaction : Option (ProjectionTransaction τ)) : TagCatalog τ :=
  { s with transactions := update s.transactions collection transaction }

/-- One batch of `_delete_catalog_batch`: the counts are lowered in the database, and rows that are
gone are not deleted again; a count of zero fails its check. -/
def TagCatalog.deleteBatch (worker : Nat) : TagCatalog τ :=
  let idle := { s with deletions := update s.deletions worker none }
  match s.deletions worker with
  | none => s
  | some (collection, batch) =>
    if batch.any fun tag => s.counts tag = some 0 then idle
    else { idle with
      memberships := s.memberships \ batch.toFinset.image (Prod.mk collection)
      counts := fun tag => if tag ∈ batch.toFinset then (s.counts tag).map (· - 1) else s.counts tag }

/-- One step. A step that is not possible, or that waits for the collection's row lock, changes
nothing. -/
def TagCatalog.step : TagStep τ → TagCatalog τ
  | .openUpload c staged =>
    match s.collections c with
    | none => s.setCollection c ⟨.tags (sortedSet staged), staged, none⟩
    | some _ => s
  | .mutate c action tag =>
    match s.transactions c, s.collections c with
    | none, some ⟨.published, tags, none⟩ =>
      if action.Changes tag tags then
        s.setCollection c ⟨.published, tags, some ⟨action, tag, action.apply tag tags⟩⟩
      else s
    | _, _ => s
  | .beginSettle c =>
    match s.transactions c, s.collections c with
    | none, some ⟨_, _, some mutation⟩ =>
      s.setTransaction c (some ⟨.settle mutation, [], [mutation.tag]⟩)
    | _, _ => s
  | .beginAdvance c =>
    match s.transactions c, s.collections c with
    | none, some ⟨.tags pending, _, _⟩ =>
      s.setTransaction c (some ⟨.advance, [], pending.take finalizationFileBatch⟩)
    | _, _ => s
  | .readTag c =>
    match s.transactions c with
    | some ⟨work, reads, tag :: rest⟩ =>
      s.setTransaction c (some ⟨work, reads ++ [(tag, s.counts tag)], rest⟩)
    | _ => s
  | .commit c => (s.written c).getD (s.setTransaction c none)
  | .rollback c => s.setTransaction c none
  | .publish c =>
    match s.transactions c, s.collections c with
    | none, some ⟨.tags [], tags, mutation⟩ => s.setCollection c ⟨.published, tags, mutation⟩
    | _, _ => s
  | .delete c =>
    match s.transactions c, s.collections c with
    | none, some ⟨.published, tags, none⟩ => s.setCollection c ⟨.deleting, tags, none⟩
    | _, _ => s
  | .selectMemberships w c =>
    match s.collections c with
    | some ⟨.deleting, _, _⟩ => { s with
        deletions := update s.deletions w (some (c, (s.membershipsOf c).take catalogDeleteBatch)) }
    | _ => s
  | .deleteMemberships w => s.deleteBatch w
  | .finishDeletion c =>
    match s.collections c with
    | some ⟨.deleting, tags, mutation⟩ =>
      if (s.membershipsOf c).isEmpty then s.setCollection c ⟨.deleted, tags, mutation⟩ else s
    | _ => s

end

/-- The number of membership rows of a tag. -/
def memberCount (memberships : Finset (Nat × τ)) (tag : τ) : Nat :=
  (memberships.filter fun row => row.2 = tag).card

/-- Every tag's `collection_count` is the number of its membership rows. -/
def TagCatalog.CountsExact (s : TagCatalog τ) : Prop :=
  ∀ tag, (s.counts tag).getD 0 = memberCount s.memberships tag

/-- The projection agrees with the authenticated tag sets: each published collection's membership
rows are the tags of its set, and the counts are exact. -/
def TagCatalog.Agrees (s : TagCatalog τ) : Prop :=
  (∀ c tags mutation, s.collections c = some ⟨.published, tags, mutation⟩ →
    ∀ tag, (c, tag) ∈ s.memberships ↔ tag ∈ tags) ∧ s.CountsExact

/-- A transaction that commits finds the tag rows as it read them, and a deletion worker that
commits finds the memberships it selected. -/
def TagCatalog.Fresh (s : TagCatalog τ) : TagStep τ → Prop
  | .commit c => (s.written c).isSome → ∀ transaction, s.transactions c = some transaction →
      ∀ read ∈ transaction.reads, s.counts read.1 = read.2
  | .deleteMemberships w => ∀ c batch, s.deletions w = some (c, batch) →
      (∀ tag ∈ batch, s.counts tag ≠ some 0) → ∀ tag ∈ batch, (c, tag) ∈ s.memberships
  | _ => True

/-- A catalog with no collections and no tags. -/
def TagCatalog.empty : TagCatalog τ :=
  ⟨fun _ => none, ∅, fun _ => none, fun _ => none, fun _ => none⟩

/-- What holds of one collection: its row, the transaction that holds its lock and its membership
rows. -/
def CollectionSound (row : Option (TaggedCollection τ))
    (transaction : Option (ProjectionTransaction τ)) (member : τ → Prop) : Prop :=
  match row with
  | none => transaction = none ∧ ∀ tag, ¬ member tag
  | some ⟨.tags pending, tags, mutation⟩ =>
    mutation = none ∧ pending.Nodup ∧ (∀ tag ∈ pending, tag ∈ tags) ∧
      (∀ tag, member tag ↔ tag ∈ tags ∧ tag ∉ pending) ∧
      ∀ x, transaction = some x → x.work = .advance ∧ x.reads.map Prod.fst ++ x.rest <+: pending
  | some ⟨.published, tags, mutation⟩ =>
    (∀ tag, member tag ↔ tag ∈ tags) ∧ (∀ m, mutation = some m → m.action.Changes m.tag tags ∧
        m.result = m.action.apply m.tag tags) ∧
      ∀ x, transaction = some x → ∃ m, mutation = some m ∧ x.work = .settle m ∧
        x.reads.map Prod.fst ++ x.rest = [m.tag] ∧
        (m.action = .remove → ∀ read ∈ x.reads, read.2.isSome)
  | some ⟨.deleting, _, mutation⟩ => mutation = none ∧ transaction = none
  | some ⟨.deleted, _, mutation⟩ => mutation = none ∧ transaction = none

/-- A collection that is being deleted or is gone. -/
def Deleting (row : Option (TaggedCollection τ)) : Prop :=
  ∃ tags mutation, row = some ⟨.deleting, tags, mutation⟩ ∨ row = some ⟨.deleted, tags, mutation⟩

/-- What every run keeps, whether or not its counts are exact. -/
structure TagCatalog.Sound (s : TagCatalog τ) : Prop where
  collection : ∀ c, CollectionSound (s.collections c) (s.transactions c)
    fun tag => (c, tag) ∈ s.memberships
  present : ∀ c tag, (c, tag) ∈ s.memberships → (s.counts tag).isSome
  reads : ∀ c x, s.transactions c = some x → ∀ read ∈ x.reads, read.2.isSome →
    (s.counts read.1).isSome
  selected : ∀ w c batch, s.deletions w = some (c, batch) →
    Deleting (s.collections c) ∧ ∀ tag ∈ batch, (s.counts tag).isSome

theorem TagCatalog.empty_sound : (TagCatalog.empty : TagCatalog τ).Sound where
  collection _ := ⟨rfl, fun _ h => absurd h (Finset.notMem_empty _)⟩
  present _ _ h := absurd h (Finset.notMem_empty _)
  reads _ _ h := nomatch h
  selected _ _ _ h := nomatch h

theorem TagCatalog.empty_agrees : (TagCatalog.empty : TagCatalog τ).Agrees := by
  constructor
  · intro c tags mutation h
    cases h
  · intro tag
    rfl

namespace TagCatalog

variable {s : TagCatalog τ} {c : Nat}

/-- A collection row may be replaced by one that fits its transaction and memberships. -/
theorem Sound.setCollection (hs : s.Sound) {row : TaggedCollection τ}
    (hrow : CollectionSound (some row) (s.transactions c) fun tag => (c, tag) ∈ s.memberships)
    (hdeleting : Deleting (s.collections c) → Deleting (some row)) :
    (s.setCollection c row).Sound where
  collection d := by
    by_cases hd : d = c
    · subst hd
      simpa [TagCatalog.setCollection] using hrow
    · simpa [TagCatalog.setCollection, update_of_ne hd] using hs.collection d
  present := hs.present
  reads := hs.reads
  selected w d batch h := by
    obtain ⟨hd, hbatch⟩ := hs.selected w d batch h
    refine ⟨?_, hbatch⟩
    by_cases hdc : d = c
    · subst hdc
      simpa [TagCatalog.setCollection] using hdeleting hd
    · simpa [TagCatalog.setCollection, update_of_ne hdc] using hd

/-- A transaction may be replaced by one that fits its collection and read present rows. -/
theorem Sound.setTransaction (hs : s.Sound) {transaction : Option (ProjectionTransaction τ)}
    (hrow : CollectionSound (s.collections c) transaction fun tag => (c, tag) ∈ s.memberships)
    (hreads : ∀ x, transaction = some x → ∀ read ∈ x.reads, read.2.isSome →
      (s.counts read.1).isSome) : (s.setTransaction c transaction).Sound where
  collection d := by
    by_cases hd : d = c
    · subst hd
      simpa [TagCatalog.setTransaction] using hrow
    · simpa [TagCatalog.setTransaction, update_of_ne hd] using hs.collection d
  present := hs.present
  reads := forall_update_some hs.reads hreads
  selected := hs.selected

/-- Without its transaction a collection is as sound as with it. -/
theorem Sound.collection_idle (hs : s.Sound) (c : Nat) :
    CollectionSound (s.collections c) none fun tag => (c, tag) ∈ s.memberships := by
  have hc := hs.collection c
  unfold CollectionSound at hc ⊢
  split at hc
  · exact ⟨rfl, hc.2⟩
  · exact ⟨hc.1, hc.2.1, hc.2.2.1, hc.2.2.2.1, by simp⟩
  · exact ⟨hc.1, hc.2.1, by simp⟩
  · exact ⟨hc.1, rfl⟩
  · exact ⟨hc.1, rfl⟩

theorem Sound.rollback (hs : s.Sound) (c : Nat) : (s.setTransaction c none).Sound :=
  hs.setTransaction (hs.collection_idle c) (by simp)

variable {x : ProjectionTransaction τ} {s' : TagCatalog τ} {writes : TagWrites τ} {tag : τ}
  {member : τ → Prop}

variable {reads : List (τ × Option Nat)} {memberships : Finset (Nat × τ)}

/-- Reading one more tag row keeps what is known of a collection and its transaction. -/
theorem CollectionSound.read {row : Option (TaggedCollection τ)} {work : ProjectionWork τ}
    {rest : List τ} {count : Option Nat}
    (h : CollectionSound row (some ⟨work, reads, tag :: rest⟩) member)
    (hcount : member tag → count.isSome) :
    CollectionSound row (some ⟨work, reads ++ [(tag, count)], rest⟩) member := by
  unfold CollectionSound at h ⊢
  split at h
  · simp at h
  · obtain ⟨hmut, hnd, hsub, hmem, hx⟩ := h
    refine ⟨hmut, hnd, hsub, hmem, ?_⟩
    intro x hxeq
    cases hxeq
    obtain ⟨hwork, hpre⟩ := hx _ rfl
    exact ⟨hwork, by simpa using hpre⟩
  · obtain ⟨hmem, hmut, hx⟩ := h
    refine ⟨hmem, hmut, ?_⟩
    intro x hxeq
    cases hxeq
    obtain ⟨m, hm, hwork, hreads, hsome⟩ := hx _ rfl
    refine ⟨m, hm, hwork, by simpa using hreads, ?_⟩
    intro hremove read hread
    rcases mem_append.1 hread with hread | hread
    · exact hsome hremove read hread
    · -- The tag to be removed is a member, so its row exists.
      obtain rfl : read = (tag, count) := by simpa using hread
      have htag : tag = m.tag := by
        have hmemTag : tag ∈ reads.map Prod.fst ++ tag :: rest := by simp
        rw [hreads] at hmemTag
        simpa using hmemTag
      have hchanges := (hmut m hm).1
      rw [hremove] at hchanges
      exact hcount ((hmem tag).2 (htag ▸ hchanges))
  · simp at h
  · simp at h

theorem mem_membershipsOf : tag ∈ s.membershipsOf c ↔ (c, tag) ∈ s.memberships := by
  simp [membershipsOf]

/-- The number of a tag's membership rows after rows of one collection are added and removed. -/
theorem memberCount_update {added removed : List τ}
    (hadded : ∀ tag ∈ added, (c, tag) ∉ memberships)
    (hremoved : ∀ tag ∈ removed, (c, tag) ∈ memberships) (tag : τ) :
    memberCount ((memberships ∪ added.toFinset.image (Prod.mk c)) \
        removed.toFinset.image (Prod.mk c)) tag + (if tag ∈ removed then 1 else 0) =
      memberCount memberships tag + if tag ∈ added then 1 else 0 := by
  have hfilter : ((memberships ∪ added.toFinset.image (Prod.mk c)) \
      removed.toFinset.image (Prod.mk c)).filter (fun row => row.2 = tag) =
      if tag ∈ removed then (memberships.filter fun row => row.2 = tag).erase (c, tag)
      else if tag ∈ added then insert (c, tag) (memberships.filter fun row => row.2 = tag)
      else memberships.filter fun row => row.2 = tag := by
    ext ⟨d, tag'⟩
    split_ifs <;> simp only [Finset.mem_filter, Finset.mem_sdiff, Finset.mem_union,
      Finset.mem_image, mem_toFinset, Prod.mk.injEq, Finset.mem_erase, Finset.mem_insert] <;> grind
  rw [memberCount, memberCount, hfilter]
  split_ifs with hr ha ha
  · exact absurd (hremoved tag hr) (hadded tag ha)
  · exact Finset.card_erase_add_one (by simp [hremoved tag hr])
  · exact Finset.card_insert_of_notMem (by simp [hadded tag ha])
  · rfl

/-- What the writes of a transaction say about the rows it read: new memberships raise the count
that was read by one, removed ones lower it by one, and no other row is stored. -/
structure Consistent (writes : TagWrites τ) (reads : List (τ × Option Nat))
    (member : τ → Prop) : Prop where
  added_new : ∀ tag ∈ writes.added, ¬ member tag
  removed_old : ∀ tag ∈ writes.removed, member tag
  rows_reads : writes.rows.map (fun row => (row.1, row.2.1)) = reads
  nodup : (reads.map Prod.fst).Nodup
  mem_reads : ∀ tag, tag ∈ reads.map Prod.fst ↔ tag ∈ writes.added ∨ tag ∈ writes.removed
  count : ∀ row ∈ writes.rows, row.2.2 + (if row.1 ∈ writes.removed then 1 else 0) =
    row.2.1.getD 0 + if row.1 ∈ writes.added then 1 else 0

/-- The writes of a sound collection's transaction are consistent with what it read. -/
theorem CollectionSound.consistent {row : Option (TaggedCollection τ)}
    (h : CollectionSound row (some x) fun tag => (c, tag) ∈ memberships) (hrest : x.rest = [])
    (hw : x.writes memberships c = some writes) :
    Consistent writes x.reads fun tag => (c, tag) ∈ memberships := by
  obtain ⟨work, reads, rest⟩ := x
  obtain rfl : rest = [] := hrest
  unfold CollectionSound at h
  split at h
  · simp at h
  · rename_i pending tags mutation
    obtain ⟨-, hnd, -, -, hx⟩ := h
    obtain ⟨hwork, hpre⟩ := hx _ rfl
    obtain rfl : work = .advance := hwork
    have hpre' : reads.map Prod.fst <+: pending := by simpa using hpre
    simp only [ProjectionTransaction.writes, advanceWrites] at hw
    split at hw
    · cases hw
    · rename_i hnew
      cases hw
      refine ⟨?_, by simp, by simp [comp_def], hnd.sublist hpre'.sublist, by simp, ?_⟩
      · intro tag htag hmem
        obtain ⟨read, hread, rfl⟩ := mem_map.1 htag
        exact hnew (any_eq_true.2 ⟨read, hread, by simpa using hmem⟩)
      · intro row hrow
        obtain ⟨read, hread, rfl⟩ := mem_map.1 hrow
        simp [show read.1 ∈ reads.map Prod.fst from mem_map_of_mem hread]
  · obtain ⟨hmem, hmut, hx⟩ := h
    obtain ⟨m, hm, hwork, hreads, hsome⟩ := hx _ rfl
    obtain rfl : work = .settle m := hwork
    obtain ⟨count, rfl⟩ : ∃ count, reads = [(m.tag, count)] := by simpa using hreads
    obtain ⟨hchanges, -⟩ := hmut m hm
    obtain ⟨action, tag, result⟩ := m
    cases action with
    | add =>
      have hnew : (c, tag) ∉ memberships := fun h => hchanges ((hmem tag).1 h)
      simp only [ProjectionTransaction.writes, settleWrites, if_neg hnew, Option.some.injEq] at hw
      subst hw
      exact ⟨by simpa using hnew, by simp, rfl, by simp, by simp, by simp⟩
    | remove =>
      have hold : (c, tag) ∈ memberships := (hmem tag).2 hchanges
      have hcount := hsome rfl _ (mem_singleton_self _)
      simp only [ProjectionTransaction.writes, settleWrites, if_pos hold] at hw
      cases count with
      | none => simp at hcount
      | some n =>
        cases n with
        | zero => cases hw
        | succ n =>
          cases hw
          exact ⟨by simp, by simpa using hold, rfl, by simp, by simp, by simp⟩
  · simp at h
  · simp at h

/-- What a transaction that commits has done. -/
theorem written_eq_some (h : s.written c = some s') :
    ∃ x row writes, s.transactions c = some x ∧ s.collections c = some row ∧ x.rest = [] ∧
      x.writes s.memberships c = some writes ∧
      (∀ r ∈ writes.rows, r.2.1 = none → s.counts r.1 = none) ∧
      s' = { s with
        collections := update s.collections c (row.advanced x)
        memberships := (s.memberships ∪ writes.added.toFinset.image (Prod.mk c)) \
          writes.removed.toFinset.image (Prod.mk c)
        counts := storedCount s.counts writes.rows
        transactions := update s.transactions c none } := by
  unfold written at h
  split at h
  · rename_i x row hx hrow
    split at h
    · rename_i hrest
      obtain ⟨writes, hw, h⟩ := Option.bind_eq_some_iff.1 h
      obtain ⟨flushed, hflush, rfl⟩ := Option.map_eq_some_iff.1 h
      unfold flush at hflush
      split at hflush
      · cases hflush
      · rename_i hrows
        cases hflush
        refine ⟨x, row, writes, hx, hrow, by simpa using hrest, hw, ?_, rfl⟩
        intro r hr hnone
        by_contra hsome
        apply hrows
        apply any_eq_true.2
        exact ⟨r, hr, by simp [hnone, Option.isSome_iff_ne_none, hsome]⟩
    · cases h
  · cases h

/-- A tag whose row a transaction stores gets the count computed from the row it read. -/
theorem Consistent.storedCount (h : Consistent writes reads member) {r : τ × Option Nat × Nat}
    (hr : r ∈ writes.rows) (counts : τ → Option Nat) :
    storedCount counts writes.rows r.1 = some r.2.2 := by
  have hnd : (writes.rows.map Prod.fst).Nodup := by
    have hkeys := h.nodup
    rw [← h.rows_reads, map_map] at hkeys
    exact hkeys
  obtain ⟨found, hfound⟩ : ∃ found, writes.rows.find? (fun row => row.1 = r.1) = some found :=
    Option.isSome_iff_exists.1 (find?_isSome.2 ⟨r, hr, by simp⟩)
  have hkey : found.1 = r.1 := by simpa using find?_some hfound
  have hsame : found = r :=
    inj_on_of_nodup_map hnd (mem_of_find?_eq_some hfound) hr hkey
  simp [Tags.storedCount, hfound, hsame]

/-- A tag whose row a transaction does not store keeps its count. -/
theorem Consistent.storedCount_of_not_mem (h : Consistent writes reads member)
    (htag : tag ∉ reads.map Prod.fst) (counts : τ → Option Nat) :
    Tags.storedCount counts writes.rows tag = counts tag := by
  have hnone : writes.rows.find? (fun row => row.1 = tag) = none := by
    apply find?_eq_none.2
    intro row hrow heq
    apply htag
    rw [← h.rows_reads, map_map]
    exact mem_map.2 ⟨row, hrow, by simpa using heq⟩
  simp [Tags.storedCount, hnone]

/-- A row that a transaction read is one of the rows it stores. -/
theorem Consistent.row_of_read (h : Consistent writes reads member) {read : τ × Option Nat}
    (hread : read ∈ reads) : ∃ r ∈ writes.rows, (r.1, r.2.1) = read := by
  rw [← h.rows_reads] at hread
  exact mem_map.1 hread

/-- A committing transaction keeps the counts exact if and only if the rows it read are still the
stored ones. -/
theorem countsExact_written_iff (hs : s.Sound) (hexact : s.CountsExact) (h : s.written c = some s')
    (hx : s.transactions c = some x) :
    s'.CountsExact ↔ ∀ read ∈ x.reads, s.counts read.1 = read.2 := by
  obtain ⟨x', row, writes, hx', hrow, hrest, hw, hrows, rfl⟩ := written_eq_some h
  obtain rfl : x' = x := Option.some.inj (hx'.symm.trans hx)
  have hc := hs.collection c
  rw [hx, hrow] at hc
  have hcons := CollectionSound.consistent hc hrest hw
  have hmembers := memberCount_update hcons.added_new hcons.removed_old
  constructor
  · intro hexact' read hread
    obtain ⟨r, hr, rfl⟩ := hcons.row_of_read hread
    have hafter := hexact' r.1
    simp only [hcons.storedCount hr, Option.getD_some] at hafter
    have hbefore := hexact r.1
    have hcount := hcons.count r hr
    have hmember := hmembers r.1
    -- Both sides moved by the same amount, so the count that was read is the stored one.
    have hread_eq : (s.counts r.1).getD 0 = r.2.1.getD 0 := by omega
    cases hrow' : r.2.1 with
    | none => exact hrows r hr hrow'
    | some n =>
      have hsome := hs.reads c _ hx _ hread (by simp [hrow'])
      obtain ⟨m, hm⟩ := Option.isSome_iff_exists.1 hsome
      simp only [hrow', hm, Option.getD_some] at hread_eq ⊢
      rw [hread_eq]
  · intro hfresh tag
    have hmember := hmembers tag
    have hbefore := hexact tag
    by_cases htag : tag ∈ x'.reads.map Prod.fst
    · obtain ⟨read, hread, rfl⟩ := mem_map.1 htag
      obtain ⟨r, hr, rfl⟩ := hcons.row_of_read hread
      have hcount := hcons.count r hr
      have hstored := hfresh _ hread
      simp only [hcons.storedCount hr, Option.getD_some]
      simp only at hstored hmember hbefore
      rw [hstored] at hbefore
      omega
    · have hnot := htag
      rw [hcons.mem_reads] at hnot
      simp only [hcons.storedCount_of_not_mem htag]
      rw [if_neg (fun h => hnot (.inr h)), if_neg (fun h => hnot (.inl h))] at hmember
      omega

/-- After its transaction a collection is sound again, with the memberships the transaction made. -/
theorem CollectionSound.advanced {row : TaggedCollection τ}
    (h : CollectionSound (some row) (some x) fun tag => (c, tag) ∈ memberships)
    (hrest : x.rest = []) (hw : x.writes memberships c = some writes) :
    CollectionSound (some (row.advanced x)) none fun tag =>
      ((c, tag) ∈ memberships ∨ tag ∈ writes.added) ∧ tag ∉ writes.removed := by
  obtain ⟨work, reads, rest⟩ := x
  obtain rfl : rest = [] := hrest
  obtain ⟨phase, tags, mutation⟩ := row
  cases phase with
  | tags pending =>
    obtain ⟨hmut, hnd, hsub, hmem, hx⟩ := h
    obtain ⟨hwork, hpre⟩ := hx _ rfl
    obtain rfl : work = .advance := hwork
    obtain ⟨later, rfl⟩ : reads.map Prod.fst <+: pending := by simpa using hpre
    simp only [ProjectionTransaction.writes, advanceWrites] at hw
    split at hw
    · cases hw
    · cases hw
      have hdrop : (reads.map Prod.fst ++ later).drop reads.length = later :=
        drop_left' (by simp)
      simp only [TaggedCollection.advanced, hdrop]
      obtain ⟨-, hlater, hdisjoint⟩ := nodup_append.1 hnd
      refine ⟨hmut, hlater, fun tag htag => hsub tag (by simp [htag]), ?_, by simp⟩
      intro tag
      have hold := hmem tag
      have hread : tag ∈ reads.map Prod.fst → tag ∈ tags ∧ tag ∉ later := fun hread =>
        ⟨hsub tag (by simp [hread]), fun hl => hdisjoint tag hread tag hl rfl⟩
      simp only [mem_append, not_mem_nil, not_false_eq_true, and_true] at hold ⊢
      tauto
  | published =>
    obtain ⟨hmem, hmut, hx⟩ := h
    obtain ⟨m, hm, hwork, hreads, -⟩ := hx _ rfl
    obtain rfl : work = .settle m := hwork
    obtain ⟨count, rfl⟩ : ∃ count, reads = [(m.tag, count)] := by simpa using hreads
    obtain ⟨hchanges, hresult⟩ := hmut m hm
    refine ⟨?_, by simp, by simp⟩
    intro tag
    simp only [hresult]
    obtain ⟨action, changed, result⟩ := m
    cases action with
    | add =>
      have hnew : (c, changed) ∉ memberships := fun h => hchanges ((hmem changed).1 h)
      simp only [ProjectionTransaction.writes, settleWrites, if_neg hnew, Option.some.injEq] at hw
      subst hw
      simp [TagAction.apply, hmem tag, or_comm]
    | remove =>
      have hold : (c, changed) ∈ memberships := (hmem changed).2 hchanges
      simp only [ProjectionTransaction.writes, settleWrites, if_pos hold] at hw
      have hremoved : writes.added = [] ∧ writes.removed = [changed] := by
        split at hw <;> cases hw <;> exact ⟨rfl, rfl⟩
      simp [TagAction.apply, hmem tag, hremoved.1, hremoved.2, and_comm]
  | deleting => exact absurd h.2 (by simp)
  | deleted => exact absurd h.2 (by simp)

theorem isSome_storedCount {counts : τ → Option Nat} {rows : List (τ × Option Nat × Nat)}
    (h : (counts tag).isSome) : (storedCount counts rows tag).isSome := by
  unfold storedCount
  split
  · rfl
  · exact h

/-- A committing transaction keeps the soundness. -/
theorem Sound.written (hs : s.Sound) (h : s.written c = some s') : s'.Sound := by
  obtain ⟨x, row, writes, hx, hrow, hrest, hw, -, rfl⟩ := written_eq_some h
  have hc := hs.collection c
  rw [hx, hrow] at hc
  have hcons := CollectionSound.consistent hc hrest hw
  refine ⟨?_, ?_, ?_, ?_⟩
  · intro d
    by_cases hd : d = c
    · subst hd
      simpa [Finset.mem_sdiff, Finset.mem_union] using CollectionSound.advanced hc hrest hw
    · have hother := hs.collection d
      simpa [update_of_ne hd, Ne.symm hd] using hother
  · intro d tag hmem
    simp only [Finset.mem_sdiff, Finset.mem_union, Finset.mem_image, mem_toFinset,
      Prod.mk.injEq] at hmem
    rcases hmem.1 with hold | ⟨tag', hadded, -, rfl⟩
    · exact isSome_storedCount (hs.present d tag hold)
    · obtain ⟨read, hread, rfl⟩ := mem_map.1 ((hcons.mem_reads tag').2 (.inl hadded))
      obtain ⟨r, hr, rfl⟩ := hcons.row_of_read hread
      simp [hcons.storedCount hr]
  · exact forall_update_some (fun d y hy read hread hsome =>
      isSome_storedCount (hs.reads d y hy read hread hsome)) (by simp)
  · intro w d batch hsel
    obtain ⟨hdeleting, hbatch⟩ := hs.selected w d batch hsel
    refine ⟨?_, fun tag htag => isSome_storedCount (hbatch tag htag)⟩
    by_cases hd : d = c
    · -- A collection that is being deleted has no transaction.
      subst hd
      obtain ⟨tags, mutation, hdel | hdel⟩ := hdeleting <;>
        · have hdead := hs.collection d
          rw [hx, hdel] at hdead
          exact absurd hdead.2 (by simp)
    · simpa [update_of_ne hd] using hdeleting

/-- What a batch of a deletion worker does. -/
theorem deleteBatch_cases (s : TagCatalog τ) (w : Nat) :
    (∃ deletions, s.deleteBatch w = { s with deletions := deletions } ∧
      (∀ w' row, deletions w' = some row → s.deletions w' = some row) ∧
      ∀ d batch, s.deletions w = some (d, batch) → ∃ tag ∈ batch, s.counts tag = some 0) ∨
    ∃ d batch, s.deletions w = some (d, batch) ∧ (∀ tag ∈ batch, s.counts tag ≠ some 0) ∧
      s.deleteBatch w = { s with
        deletions := update s.deletions w none
        memberships := s.memberships \ batch.toFinset.image (Prod.mk d)
        counts := fun tag => if tag ∈ batch then (s.counts tag).map (· - 1) else s.counts tag } := by
  unfold deleteBatch
  cases hsel : s.deletions w with
  | none => exact .inl ⟨s.deletions, rfl, fun _ _ h => h, by simp⟩
  | some selected =>
    obtain ⟨d, batch⟩ := selected
    simp only
    by_cases hzero : batch.any fun tag => s.counts tag = some 0
    · rw [if_pos hzero]
      refine .inl ⟨_, rfl, forall_update_some (fun _ _ h => h) (by simp), ?_⟩
      rintro d' batch' h
      cases h
      simpa using hzero
    · rw [if_neg hzero]
      exact .inr ⟨d, batch, rfl, by simpa using hzero, by simp only [List.mem_toFinset]⟩

/-- A deletion batch keeps the soundness. -/
theorem Sound.deleteBatch (hs : s.Sound) (w : Nat) : (s.deleteBatch w).Sound := by
  obtain ⟨deletions, heq, hdel, -⟩ | ⟨d, batch, hsel, -, heq⟩ := s.deleteBatch_cases w
  · rw [heq]
    exact ⟨hs.collection, hs.present, hs.reads,
      fun w' c batch h => hs.selected w' c batch (hdel w' _ h)⟩
  · have hcount : ∀ tag, (s.counts tag).isSome →
        (if tag ∈ batch then (s.counts tag).map (· - 1) else s.counts tag).isSome := by
      intro tag hsome
      split
      · simpa using hsome
      · exact hsome
    obtain ⟨hdeleting, -⟩ := hs.selected w d batch hsel
    rw [heq]
    refine ⟨?_, ?_, ?_, ?_⟩
    · intro c
      have hc := hs.collection c
      by_cases hcd : c = d
      · subst hcd
        obtain ⟨tags, mutation, hrow | hrow⟩ := hdeleting <;>
          · rw [hrow] at hc
            rw [hrow]
            exact hc
      · simpa [Ne.symm hcd] using hc
    · intro c tag hmem
      exact hcount tag (hs.present c tag (Finset.mem_sdiff.1 hmem).1)
    · intro c x hx read hread hsome
      exact hcount read.1 (hs.reads c x hx read hread hsome)
    · intro w' c batch' h
      by_cases hw : w' = w
      · subst hw
        simp at h
      · obtain ⟨hdel, hbatch⟩ :=
          hs.selected w' c batch' (by simpa [update_of_ne hw] using h)
        exact ⟨hdel, fun tag htag => hcount tag (hbatch tag htag)⟩

/-- A deletion batch keeps the counts exact if and only if the memberships it selected are still
there. -/
theorem countsExact_deleteBatch_iff (hs : s.Sound) (hexact : s.CountsExact) (w : Nat) :
    (s.deleteBatch w).CountsExact ↔ s.Fresh (.deleteMemberships w) := by
  obtain ⟨deletions, heq, -, hzero⟩ | ⟨d, batch, hsel, hpos, heq⟩ := s.deleteBatch_cases w
  · rw [heq]
    refine iff_of_true hexact ?_
    intro c batch hsel hpos
    obtain ⟨tag, htag, h0⟩ := hzero c batch hsel
    exact absurd h0 (hpos tag htag)
  · obtain ⟨-, hpresent⟩ := hs.selected w d batch hsel
    rw [heq]
    constructor
    · intro hexact' c batch' hsel' _ tag htag
      rw [hsel] at hsel'
      cases hsel'
      -- A row that is gone would leave the number of rows as it is while the count is lowered.
      by_contra hgone
      obtain ⟨n, hn⟩ := Option.isSome_iff_exists.1 (hpresent tag htag)
      have hafter := hexact' tag
      have hbefore := hexact tag
      have hsame : memberCount (s.memberships \ batch.toFinset.image (Prod.mk d)) tag =
          memberCount s.memberships tag := by
        unfold memberCount
        congr 1
        ext ⟨e, tag'⟩
        simp only [Finset.mem_filter, Finset.mem_sdiff, Finset.mem_image, mem_toFinset,
          Prod.mk.injEq]
        grind
      have hpos' := hpos tag htag
      simp only [if_pos htag, hn, Option.map_some, Option.getD_some, hsame] at hafter hbefore hpos'
      have : n ≠ 0 := fun h0 => hpos' (by rw [h0])
      omega
    · intro hfresh tag
      have hremoved := hfresh d batch hsel hpos
      have hmember := @memberCount_update τ _ d s.memberships [] batch (by simp) hremoved tag
      have hbefore := hexact tag
      simp only [toFinset_nil, Finset.image_empty, Finset.union_empty, not_mem_nil,
        if_false, Nat.add_zero] at hmember
      by_cases htag : tag ∈ batch
      · obtain ⟨n, hn⟩ := Option.isSome_iff_exists.1 (hpresent tag htag)
        simp only [if_pos htag, hn, Option.map_some, Option.getD_some] at hmember hbefore ⊢
        omega
      · simp only [if_neg htag, Nat.add_zero] at hmember ⊢
        omega

/-- The soundness is kept by every step. -/
theorem Sound.step (hs : s.Sound) (i : TagStep τ) : (s.step i).Sound := by
  cases i <;> simp only [TagCatalog.step]
  case openUpload c staged =>
    split
    · rename_i hrow
      have hc := hs.collection c
      rw [hrow] at hc
      apply hs.setCollection
      · refine ⟨rfl, Finset.sort_nodup _ _, by simp, ?_, ?_⟩
        · intro tag
          simp [hc.2 tag]
        · intro x hx
          rw [hc.1] at hx
          cases hx
      · rintro ⟨tags, mutation, h | h⟩ <;> simp [hrow] at h
    · exact hs
  case mutate c action tag =>
    split
    · rename_i tags htx hrow
      split
      · rename_i hchanges
        have hc := hs.collection c
        rw [hrow, htx] at hc
        apply hs.setCollection
        · refine ⟨hc.1, ?_, ?_⟩
          · intro m hm
            cases hm
            exact ⟨hchanges, rfl⟩
          · intro x hx
            rw [htx] at hx
            cases hx
        · rintro ⟨tags, mutation, h | h⟩ <;> simp [hrow] at h
      · exact hs
    · exact hs
  case beginSettle c =>
    split
    · rename_i phase tags mutation htx hrow
      have hc := hs.collection c
      rw [hrow, htx] at hc
      apply hs.setTransaction
      · rw [hrow]
        cases phase with
        | tags pending => exact absurd hc.1 (by simp)
        | published =>
          refine ⟨hc.1, hc.2.1, ?_⟩
          intro x hx
          cases hx
          exact ⟨mutation, rfl, rfl, rfl, by simp⟩
        | deleting => exact absurd hc.1 (by simp)
        | deleted => exact absurd hc.1 (by simp)
      · intro x hx read hread
        cases hx
        simp at hread
    · exact hs
  case beginAdvance c =>
    split
    · rename_i pending tags mutation htx hrow
      have hc := hs.collection c
      rw [hrow, htx] at hc
      apply hs.setTransaction
      · rw [hrow]
        refine ⟨hc.1, hc.2.1, hc.2.2.1, hc.2.2.2.1, ?_⟩
        intro x hx
        cases hx
        exact ⟨rfl, by simpa using take_prefix _ _⟩
      · intro x hx read hread
        cases hx
        simp at hread
    · exact hs
  case readTag c =>
    split
    · rename_i work reads tag rest htx
      have hc := hs.collection c
      rw [htx] at hc
      apply hs.setTransaction
      · exact CollectionSound.read hc (hs.present c tag)
      · intro x hx read hread hsome
        cases hx
        rcases mem_append.1 hread with hread | hread
        · exact hs.reads c _ htx read hread hsome
        · obtain rfl : read = (tag, s.counts tag) := by simpa using hread
          exact hsome
    · exact hs
  case commit c =>
    cases h : s.written c with
    | none => exact hs.rollback c
    | some s' => exact hs.written h
  case rollback c => exact hs.rollback c
  case publish c =>
    split
    · rename_i tags mutation htx hrow
      have hc := hs.collection c
      rw [hrow, htx] at hc
      obtain ⟨hmut, -, -, hmem, -⟩ := hc
      apply hs.setCollection
      · refine ⟨by simpa using hmem, ?_, ?_⟩
        · intro m hm
          rw [hmut] at hm
          cases hm
        · intro x hx
          rw [htx] at hx
          cases hx
      · rintro ⟨tags, mutation, h | h⟩ <;> simp [hrow] at h
    · exact hs
  case delete c =>
    split
    · rename_i tags htx hrow
      apply hs.setCollection
      · exact ⟨rfl, htx⟩
      · rintro ⟨tags, mutation, h | h⟩ <;> simp [hrow] at h
    · exact hs
  case selectMemberships w c =>
    split
    · rename_i tags mutation hrow
      refine ⟨hs.collection, hs.present, hs.reads, ?_⟩
      intro w' d batch h
      by_cases hw : w' = w
      · subst hw
        simp only [update_self, Option.some.injEq, Prod.mk.injEq] at h
        obtain ⟨rfl, rfl⟩ := h
        refine ⟨⟨tags, mutation, .inl hrow⟩, ?_⟩
        intro tag htag
        exact hs.present c tag (mem_membershipsOf.1 (mem_of_mem_take htag))
      · exact hs.selected w' d batch (by simpa [update_of_ne hw] using h)
    · exact hs
  case deleteMemberships w => exact hs.deleteBatch w
  case finishDeletion c =>
    split
    · rename_i tags mutation hrow
      have hc := hs.collection c
      rw [hrow] at hc
      split
      · apply hs.setCollection
        · exact hc
        · intro _
          exact ⟨tags, mutation, .inr rfl⟩
      · exact hs
    · exact hs

/-- A sound catalog agrees with the tag sets if and only if its counts are exact. -/
theorem Sound.agrees_iff (hs : s.Sound) : s.Agrees ↔ s.CountsExact := by
  refine ⟨fun h => h.2, fun h => ⟨?_, h⟩⟩
  intro c tags mutation hrow
  have hc := hs.collection c
  rw [hrow] at hc
  exact hc.1

/-- One step keeps the agreement if and only if it is fresh. -/
theorem agrees_step_iff (hs : s.Sound) (hagrees : s.Agrees) (i : TagStep τ) :
    (s.step i).Agrees ↔ s.Fresh i := by
  rw [(hs.step i).agrees_iff]
  have hexact := hs.agrees_iff.1 hagrees
  cases i with
  | commit c =>
    simp only [step, TagCatalog.Fresh]
    cases h : s.written c with
    | none => exact iff_of_true hexact (by simp)
    | some s' =>
      obtain ⟨x, -, -, hx, -⟩ := written_eq_some h
      have hiff := countsExact_written_iff hs hexact h hx
      simp only [Option.getD_some, Option.isSome_some, forall_const, hx, Option.some.injEq]
      exact ⟨fun h y hy => hy ▸ hiff.1 h, fun h => hiff.2 (h x rfl)⟩
  | deleteMemberships w => exact countsExact_deleteBatch_iff hs hexact w
  | _ =>
    -- the other steps write no membership row and no count
    refine iff_of_true ?_ trivial
    simp only [step]
    repeat' split
    all_goals exact hexact

end TagCatalog

/-- The projection agrees with the tag sets in every state of a run if and only if every
transaction of the run that commits finds the tag rows and the memberships as it read them. -/
theorem projection_agrees_iff_fresh (run : List (TagStep τ)) :
    Throughout TagCatalog.step TagCatalog.Agrees TagCatalog.empty run ↔
      Guarded TagCatalog.step TagCatalog.Fresh TagCatalog.empty run := by
  have hinv : ∀ (s : TagCatalog τ) i, s.Sound → (s.step i).Sound := fun s i hs => hs.step i
  have hstep : ∀ (s : TagCatalog τ) i, s.Sound → s.Agrees → ((s.step i).Agrees ↔ s.Fresh i) :=
    fun s i hs hagrees => TagCatalog.agrees_step_iff hs hagrees i
  exact throughout_iff_guarded hinv hstep TagCatalog.empty_sound TagCatalog.empty_agrees run

end Model

/-- Two collections settle the addition of one tag that a third one has: both transactions read the
count 1 and both write 2. -/
def concurrentAdditions : List (TagStep Nat) :=
  [.openUpload 0 {7}, .beginAdvance 0, .readTag 0, .commit 0, .publish 0,
    .openUpload 1 ∅, .publish 1, .openUpload 2 ∅, .publish 2,
    .mutate 1 .add 7, .mutate 2 .add 7, .beginSettle 1, .beginSettle 2,
    .readTag 1, .readTag 2, .commit 1, .commit 2]

theorem concurrent_additions_lose_count :
    (concurrentAdditions.foldl TagCatalog.step TagCatalog.empty).counts 7 = some 2 ∧
      memberCount (concurrentAdditions.foldl TagCatalog.step TagCatalog.empty).memberships 7 = 3 ∧
      ¬ Throughout TagCatalog.step TagCatalog.Agrees TagCatalog.empty concurrentAdditions := by
  have hcount : (concurrentAdditions.foldl TagCatalog.step TagCatalog.empty).counts 7 = some 2 := by
    decide +kernel
  have hmembers : memberCount
      (concurrentAdditions.foldl TagCatalog.step TagCatalog.empty).memberships 7 = 3 := by
    decide +kernel
  refine ⟨hcount, hmembers, ?_⟩
  intro h
  have hexact := h.last.2 7
  rw [hcount, hmembers] at hexact
  cases hexact

end Riverhog.Tags
