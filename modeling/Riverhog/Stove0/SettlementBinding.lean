import Riverhog.Stove0.Settlement
import Mathlib.Data.List.Perm.Subperm

/-!
# What a settlement binds

The bound outputs follow the inventory: every page adds the declared outputs beside its files. The
keys that the output cursor has passed are the paths of bound outputs, so at the end every declared
path is bound. A declared output is left out only if it shares its path with a bound one.
-/

namespace Riverhog.Stove0

open Core List

/-! ## Bound outputs -/

/-- A declared output is the file of the collection. -/
def BoundTo (declared : OutputArtifact) (file : FileIdentity) : Prop :=
  declared.path = file.path ∧ declared.bytes = file.bytes ∧ declared.sha256 = file.sha256

/-- The files that a settlement binds, in the order of the inventory. -/
def FinalCollection.outputFiles (c : FinalCollection) : List FileIdentity :=
  c.inventory.filter fun f => !f.isControl

/-- A settlement binds the files of its collection one to one to the declared outputs and commits
to the bindings in one pass. -/
structure SettlementScope.BindsExactly (scope : SettlementScope) (codec : SettlementCodec)
    (settlement : TargetSettlementAuthority) (collection : FinalCollection)
    (bound : List OutputArtifact) : Prop where
  final : scope.catalog settlement.outputCollection.collectionId = some collection
  files : Forall₂ BoundTo bound collection.outputFiles
  outputs : bound.Perm scope.declared.rows
  count : settlement.outputBindings.artifactCount = bound.length
  bytes : settlement.outputBindings.totalBytes = (bound.map OutputArtifact.bytes).sum
  sha256 : CommitmentOf bindingDomain
    (fun o => codec.binding (o.binding settlement.outputCollection)) bound
    settlement.outputBindings.sha256

/-- The columns of a checkpoint that are computed from the bound outputs. -/
structure SettlementCheckpoint.Tallies (codec : SettlementCodec) (output : OutputCollectionRef)
    (bound : List OutputArtifact) (c : SettlementCheckpoint) : Prop where
  cursor : c.outputPathCursor = lastKey OutputArtifact.path bound
  hash : Commits bindingDomain (fun o => codec.binding (o.binding output)) bound c.bindingHash
  count : c.artifactCount = bound.length
  bytes : c.totalBytes = (bound.map OutputArtifact.bytes).sum

theorem tallies_start (codec : SettlementCodec) (output : OutputCollectionRef) :
    SettlementCheckpoint.start.Tallies codec output [] :=
  ⟨rfl, commits_nil _ _, rfl, rfl⟩

section Settlement

variable {scope : SettlementScope} {codec : SettlementCodec} {output : OutputCollectionRef}

variable {read : List FileIdentity} {limit : Nat} {c next : SettlementCheckpoint}

variable {files : List FileIdentity} {bound : List OutputArtifact} {status : SettlementStatus}

/-- Binding one output adds it to the tallies. -/
theorem bindOutput_tallies {declared : OutputArtifact} {file : FileIdentity}
    (hc : c.Tallies codec output bound)
    (h : bindOutput codec output c (declared, file) = .ok next) :
    next.Tallies codec output (bound ++ [declared]) ∧ BoundTo declared file := by
  simp only [bindOutput, bind_eq_ok, require_eq_ok, mapError_eq_ok] at h
  obtain ⟨-, hmatch, encoded, hencode, h⟩ := h
  obtain rfl := Except.ok.inj h
  refine ⟨⟨?_, ?_, ?_, ?_⟩, ?_⟩
  · exact (lastKey_concat bound declared).symm
  · dsimp only
    rw [hc.count]
    exact hc.hash.concat hencode
  · simp [hc.count]
  · simp [hc.bytes]
  · simpa [BoundTo, and_assoc] using hmatch

/-- Binding a page adds it to the tallies. -/
theorem bindOutputs_tallies {page : List OutputArtifact} (hlength : page.length = files.length)
    (hc : c.Tallies codec output bound)
    (h : (page.zip files).foldlM (bindOutput codec output) c = .ok next) :
    next.Tallies codec output (bound ++ page) ∧ Forall₂ BoundTo page files := by
  induction page generalizing files c bound with
  | nil =>
    obtain rfl := length_eq_zero_iff.1 hlength.symm
    obtain rfl := Except.ok.inj h
    exact ⟨by rwa [append_nil], .nil⟩
  | cons declared page ih =>
    cases files with
    | nil => cases hlength
    | cons file files =>
      rw [zip_cons_cons, foldlM_cons, bind_eq_ok] at h
      obtain ⟨middle, hfirst, hrest⟩ := h
      obtain ⟨hmiddle, hbound⟩ := bindOutput_tallies hc hfirst
      obtain ⟨hnext, hpage⟩ := ih (Nat.succ.inj hlength) hmiddle hrest
      rw [append_assoc] at hnext
      exact ⟨hnext, .cons hbound hpage⟩

/-! ## Pages -/

theorem nodup_sortKey (c : FinalCollection) : (c.files.rows.map FileIdentity.sortKey).Nodup := by
  have h := c.files.nodup.map encodeUtf8_injective
  rwa [map_map] at h

/-- The rows of an inventory page. -/
theorem getPortableCollectionInventory_eq_ok {catalog : Nat → Option FinalCollection} {id : Nat}
    {cursor : Option InventoryCursor} {expected : Option Digest} {page : InventoryPage}
    (h : getPortableCollectionInventory catalog id cursor limit expected = .ok page)
    {c : FinalCollection} (hc : catalog id = some c) {rest : List FileIdentity}
    (hs : c.inventory = read ++ rest)
    (hcursor : (cursor.map fun k => encodeUtf8 k.after) = lastKey FileIdentity.sortKey read) :
    0 < limit ∧ page.files = rest.take limit ∧ page.complete = !decide (limit < rest.length) ∧
      (page.complete = false → (page.nextCursor.map fun k => encodeUtf8 k.after) =
          lastKey FileIdentity.sortKey (rest.take limit)) := by
  have hrows := pageAfter_lastKey (nodup_sortKey c) hs (limit + 1)
  have hlength : limit < (rest.take (limit + 1)).length ↔ limit < rest.length := by
    rw [length_take]
    omega
  simp only [getPortableCollectionInventory, hc, bind_eq_ok, require_eq_ok] at h
  obtain ⟨-, -, -, hlimit, -, -, -, -, -, -, h⟩ := h
  rw [hcursor, hrows] at h
  obtain rfl := Except.ok.inj h
  simp only [Bool.and_eq_true, decide_eq_true_eq] at hlimit
  have htake : (rest.take (limit + 1)).take limit = rest.take limit := by
    rw [take_take, Nat.min_eq_left (Nat.le_succ limit)]
  refine ⟨hlimit.1, htake, ?_, fun hmore => ?_⟩
  · simp only [hlength]
  · simp only [Bool.not_eq_false', decide_eq_true_eq] at hmore
    simp only [hmore, decide_true, if_true, htake, lastKey]
    rw [Option.map_map]
    rfl

/-- The outputs bound so far, and where the cursors stand. -/
structure SettlementCheckpoint.Follows (scope : SettlementScope) (codec : SettlementCodec)
    (output : OutputCollectionRef) (read : List FileIdentity) (bound : List OutputArtifact)
    (c : SettlementCheckpoint) : Prop extends c.Tallies codec output bound where
  files : Forall₂ BoundTo bound (read.filter fun f => !f.isControl)
  declared : ∀ o ∈ bound, o ∈ scope.declared.rows
  increasing : bound.Pairwise fun o o' => o.path < o'.path
  passed : ∀ o ∈ scope.declared.rows,
    (∀ k ∈ c.outputPathCursor, k < o.path) ∨ o.path ∈ bound.map OutputArtifact.path

theorem follows_start (scope : SettlementScope) (codec : SettlementCodec)
    (output : OutputCollectionRef) : SettlementCheckpoint.start.Follows scope codec output [] [] :=
  ⟨tallies_start codec output, .nil, fun _ h => absurd h not_mem_nil, .nil,
    fun _ _ => .inl fun _ h => nomatch h⟩

theorem paths_of_boundTo (h : Forall₂ BoundTo bound files) :
    bound.map OutputArtifact.path = files.map FileIdentity.path := by
  induction h with
  | nil => rfl
  | cons hfirst _ ih => rw [map_cons, map_cons, hfirst.1, ih]

/-- The next outputs by path, where their paths differ. -/
theorem SettlementCheckpoint.Follows.increasing_page (hc : c.Follows scope codec output read bound)
    (hn : ((scope.targetOutputPathPage c.outputPathCursor limit).map OutputArtifact.path).Nodup) :
    (bound ++ scope.targetOutputPathPage c.outputPathCursor limit).Pairwise
      fun o o' => o.path < o'.path := by
  rw [Nodup, pairwise_map] at hn
  have hle : (scope.targetOutputPathPage c.outputPathCursor limit).Pairwise
      fun o o' => o.path ≤ o'.path := pairwise_pageAfter _ _
  refine pairwise_append.2 ⟨hc.increasing, hle.imp₂ (fun _ _ => lt_of_le_of_ne) hn, ?_⟩
  intro o ho o' ho'
  have hafter := (mem_pageAfter ho').2
  -- The cursor is the path of the last bound output, and no bound output has a larger path.
  rw [hc.cursor, lastKey] at hafter
  obtain ⟨last, hlast⟩ := Option.isSome_iff_exists.1 (getLast?_isSome.2 (ne_nil_of_mem ho))
  have hlt := hafter last.path (by rw [hlast]; rfl)
  have hcut := dropLast_append_getLast? last hlast
  have hincreasing := hc.increasing
  rw [← hcut] at ho hincreasing
  rcases mem_append.1 ho with ho | ho
  · exact ((pairwise_append.1 hincreasing).2.2 o ho last (mem_singleton_self _)).trans hlt
  · rwa [mem_singleton.1 ho]

/-- A page passes the outputs up to its last one. -/
theorem SettlementCheckpoint.Follows.passed_page (hc : c.Follows scope codec output read bound)
    (limit : Nat) {o : OutputArtifact} (ho : o ∈ scope.declared.rows) :
    (∀ k ∈ lastKey OutputArtifact.path
        (bound ++ scope.targetOutputPathPage c.outputPathCursor limit), k < o.path) ∨
      o.path ∈ (bound ++ scope.targetOutputPathPage c.outputPathCursor limit).map
        OutputArtifact.path := by
  rw [map_append, mem_append]
  rcases hc.passed o ho with hafter | hbound
  · rcases mem_keys_or_lt_of_pageAfter limit ho hafter with hpage | hlt
    · exact .inr (.inr hpage)
    · left
      intro k hk
      by_cases hempty : scope.targetOutputPathPage c.outputPathCursor limit = []
      · rw [hempty, append_nil, ← hc.cursor] at hk
        exact hafter k hk
      · rw [lastKey_append hempty, lastKey] at hk
        obtain ⟨last, hlast, rfl⟩ := Option.map_eq_some_iff.1 hk
        exact hlt last (mem_of_getLast? hlast)
  · exact .inr (.inl hbound)

theorem SettlementScope.declarations_eq (scope : SettlementScope) (c : SettlementCheckpoint)
    (files : List FileIdentity) :
    scope.declarations c files = scope.targetOutputPathPage c.outputPathCursor files.length := by
  rw [declarations]
  split
  · next h =>
    rw [h]
    rfl
  · rfl

/-- Binding the files of a page follows the inventory. -/
theorem SettlementCheckpoint.Follows.bind {page : List FileIdentity}
    (hc : c.Follows scope codec output read bound) (hpaths : (page.map FileIdentity.path).Nodup)
    (hfiles : files = page.filter fun f => !f.isControl)
    (hlength : (scope.declarations c files).length = files.length)
    (h : ((scope.declarations c files).zip files).foldlM (bindOutput codec output) c = .ok next) :
    next.Follows scope codec output (read ++ page) (bound ++ scope.declarations c files) := by
  obtain ⟨htallies, hbound⟩ := bindOutputs_tallies hlength hc.toTallies h
  rw [scope.declarations_eq] at hbound htallies ⊢
  have hsublist : (files.map FileIdentity.path).Sublist (page.map FileIdentity.path) := by
    rw [hfiles]
    exact filter_sublist.map _
  have hn := hpaths.sublist hsublist
  rw [← paths_of_boundTo hbound] at hn
  refine ⟨htallies, ?_, ?_, hc.increasing_page hn, fun o ho => ?_⟩
  · rw [filter_append, ← hfiles]
    exact rel_append hc.files hbound
  · intro o ho
    rcases mem_append.1 ho with ho | ho
    · exact hc.declared o ho
    · exact (mem_pageAfter ho).1
  · rw [htallies.cursor]
    exact hc.passed_page files.length ho

/-! ## A settlement binds every declared output -/

/-- At the end of the inventory the bound outputs are the declared ones, if no two of these share
a path or there are as many of them. -/
theorem SettlementCheckpoint.Follows.perm_declared (hc : c.Follows scope codec output read bound)
    (hend : scope.targetOutputPathPage c.outputPathCursor 1 = [])
    (hdistinct : (scope.declared.rows.map OutputArtifact.path).Nodup ∨
      bound.length = scope.declared.rows.length) : bound.Perm scope.declared.rows := by
  have hnodup : bound.Nodup := hc.increasing.imp fun h heq => by
    rw [heq] at h
    exact lt_irrefl _ h
  have hsub : bound.Subperm scope.declared.rows := hnodup.subperm fun o ho => hc.declared o ho
  rcases hdistinct with hpaths | hlength
  · rw [perm_ext_iff_of_nodup hnodup hpaths.of_map]
    refine fun o => ⟨hc.declared o, fun ho => ?_⟩
    have hnone := not_after_of_pageAfter_eq_nil Nat.one_pos hend ho
    have hpassed := (hc.passed o ho).resolve_left hnone
    obtain ⟨o', ho', hpath⟩ := mem_map.1 hpassed
    rwa [← inj_on_of_nodup_map hpaths (hc.declared o' ho') ho hpath]
  · exact hsub.perm_of_length_le hlength.ge

/-- No two declared outputs share a path, or the target reports as many outputs as are declared. -/
def SettlementScope.Accounts (scope : SettlementScope) (call : SettlementCall) : Prop :=
  (scope.declared.rows.map OutputArtifact.path).Nodup ∨
    call.production.outputs.artifactCount = scope.declared.rows.length

/-- A sealed settlement binds exactly the declared outputs. -/
theorem SettlementCheckpoint.Follows.bindsExactly {call : SettlementCall}
    {collection : FinalCollection}
    (hc : c.Follows scope codec call.output collection.inventory bound)
    (hcatalog : scope.catalog call.output.collectionId = some collection)
    (hend : scope.targetOutputPathPage c.outputPathCursor 1 = [])
    (hcount : c.artifactCount = call.production.outputs.artifactCount)
    (haccounts : scope.Accounts call) {settlement : TargetSettlementAuthority}
    (h : sealSettlement scope codec call c = .ok settlement) :
    settlement.outputCollection = call.output ∧
      scope.BindsExactly codec settlement collection bound := by
  simp only [sealSettlement, bind_eq_ok, mapError_eq_ok] at h
  obtain ⟨sha256, hsha256, -, -, -, -, h⟩ := h
  obtain rfl := Except.ok.inj h
  refine ⟨rfl, hcatalog, hc.files, hc.perm_declared hend ?_, hc.count, hc.bytes,
    hc.hash.commitmentOf hsha256⟩
  exact haccounts.imp id fun hreported => by rw [← hc.count, hcount, hreported]

/-- What a status says about the inventory. -/
def SettlementStatus.Holds (scope : SettlementScope) (codec : SettlementCodec)
    (output : OutputCollectionRef) : SettlementStatus → Prop
  | .binding c => ∀ collection, scope.catalog output.collectionId = some collection →
      ∃ read rest bound, collection.inventory = read ++ rest ∧
        (c.inventoryCursor.map fun k => encodeUtf8 k.after) = lastKey FileIdentity.sortKey read ∧
        c.Follows scope codec output read bound
  | .sealed settlement => settlement.outputCollection = output ∧
      ∃ collection bound, scope.BindsExactly codec settlement collection bound
  | .failed _ => True

/-- Reading one more page keeps what the status says. -/
theorem advanceSettlement_holds {call : SettlementCall}
    (haccounts : scope.Accounts call)
    (hc : (SettlementStatus.binding c).Holds scope codec call.output)
    (h : advanceSettlement scope codec call limit c = .ok status) :
    status.Holds scope codec call.output := by
  simp only [advanceSettlement, bind_eq_ok, require_eq_ok, decide_eq_true_eq] at h
  obtain ⟨page, hpage, -, -, -, hlength, next, hnext, -, -, h⟩ := h
  cases hcatalog : scope.catalog call.output.collectionId with
  | none => simp [getPortableCollectionInventory, hcatalog, bind_eq_ok] at hpage
  | some collection =>
    obtain ⟨read, rest, bound, hs, hcursor, hfollows⟩ := hc collection hcatalog
    obtain ⟨hlimit, hfiles, hcomplete, hafter⟩ :=
      getPortableCollectionInventory_eq_ok hpage hcatalog hs hcursor
    have hpaths : (page.files.map FileIdentity.path).Nodup := by
      have hperm : (read ++ rest).Perm collection.files.rows := hs ▸ sortedBy_perm _ _
      refine (((hperm.map _).nodup_iff.2 collection.files.nodup).sublist (Sublist.map _ ?_))
      rw [hfiles]
      exact (take_sublist _ _).trans (sublist_append_right _ _)
    obtain ⟨bound', hbind⟩ :
        ∃ bound', next.Follows scope codec call.output (read ++ page.files) bound' :=
      ⟨_, hfollows.bind hpaths rfl hlength hnext⟩
    cases hdone : page.complete with
    | true =>
      rw [hdone] at hcomplete
      have hrest : rest.take limit = rest := by
        apply take_of_length_le
        simpa using hcomplete
      simp only [hdone, if_true, bind_eq_ok, require_eq_ok, Bool.and_eq_true, decide_eq_true_eq,
        List.isEmpty_iff] at h
      obtain ⟨-, ⟨⟨hend, hcount⟩, -⟩, settlement, hsettlement, h⟩ := h
      obtain rfl := Except.ok.inj h
      rw [hfiles, hrest, ← hs] at hbind
      obtain ⟨houtput, hexact⟩ :=
        hbind.bindsExactly hcatalog hend hcount haccounts hsettlement
      exact ⟨houtput, collection, bound', hexact⟩
    | false =>
      simp only [hdone, Bool.false_eq_true, if_false] at h
      obtain rfl := Except.ok.inj h
      intro collection' hcollection'
      obtain rfl := Option.some.inj (hcatalog.symm.trans hcollection')
      have hne : rest.take limit ≠ [] := by
        rw [hdone] at hcomplete
        have hlt : limit < rest.length := by simpa using hcomplete
        exact ne_nil_of_length_pos (by rw [length_take]; omega)
      refine ⟨read ++ rest.take limit, rest.drop limit, bound', ?_, ?_, ?_⟩
      · rw [append_assoc, take_append_drop, hs]
      · rw [lastKey_append hne]
        exact hafter hdone
      · rw [hfiles] at hbind
        exact ⟨⟨hbind.cursor, hbind.hash, hbind.count, hbind.bytes⟩, hbind.files, hbind.declared,
          hbind.increasing, hbind.passed⟩

/-! ## Runs -/

theorem SettlementStatus.Holds.settlement
    (h : status.Holds scope codec output) {settlement : TargetSettlementAuthority}
    (hs : status.settlement = some settlement) :
    ∃ collection bound, scope.BindsExactly codec settlement collection bound := by
  cases status with
  | binding c => cases hs
  | failed failure => cases hs
  | sealed sealedSettlement =>
    obtain rfl := Option.some.inj hs
    exact h.2

/-- What a worker knows. -/
def SettlementWorker.Sound (scope : SettlementScope) (codec : SettlementCodec) :
    SettlementWorker → Prop
  | .idle => True
  | .loaded call record c => record.outputCollection = call.output ∧ scope.Accounts call ∧
      (SettlementStatus.binding c).Holds scope codec call.output
  | .computed _ _ replacement =>
      replacement.status.Holds scope codec replacement.outputCollection
  | .returned settlement => ∀ s, settlement = some s →
      ∃ collection bound, scope.BindsExactly codec s collection bound

/-- What holds of the record and of every worker. -/
structure SettlementSystem.Sound (scope : SettlementScope) (codec : SettlementCodec)
    (s : SettlementSystem) : Prop where
  record : ∀ r, s.record = some r → r.status.Holds scope codec r.outputCollection
  workers : ∀ w, (s.workers w).Sound scope codec

namespace SettlementSystem

theorem sound_initial (job : Option Digest) : (initial job).Sound scope codec :=
  ⟨fun _ h => absurd h (Option.some_ne_none _).symm, fun _ => trivial⟩

variable {s : SettlementSystem}

section

variable (hs : s.Sound scope codec) {r : SettlementSeal}
include hs

theorem Sound.setWorker {worker : Nat} {w : SettlementWorker}
    (hw : w.Sound scope codec) : (s.setWorker worker w).Sound scope codec := by
  exact ⟨hs.record, (Function.forall_update_iff s.workers fun _ w => w.Sound scope codec).2
    ⟨hw, fun v _ => hs.workers v⟩⟩

theorem Sound.setRecord (hr : r.status.Holds scope codec r.outputCollection) :
    SettlementSystem.Sound scope codec { s with record := some r } :=
  ⟨fun _ h => Option.some.inj h ▸ hr, hs.workers⟩

/-- The record that a call goes on with is the stored one or a new one, and is for its output. -/
theorem Sound.ensure {call : SettlementCall}
    (h : s.ensureTargetSettlementBinding scope call.newSeal = .ok r) :
    r.outputCollection = call.output ∧ r.status.Holds scope codec r.outputCollection := by
  simp only [ensureTargetSettlementBinding, bind_eq_ok, require_eq_ok, Bool.and_eq_true,
    decide_eq_true_eq] at h
  obtain ⟨-, -, -, ⟨houtput, -⟩, h⟩ := h
  obtain rfl := Except.ok.inj h
  refine ⟨houtput, ?_⟩
  cases hrecord : s.record with
  | some r => exact hs.record r hrecord
  | none =>
    exact fun collection _ => ⟨[], collection.inventory, [], rfl, rfl, follows_start scope codec _⟩

theorem Sound.start {call : SettlementCall} (haccounts : scope.Accounts call) (worker : Nat) :
    (s.start scope worker call).Sound scope codec := by
  rw [SettlementSystem.start]
  split
  · next r hr =>
    obtain ⟨houtput, hholds⟩ := hs.ensure hr
    refine (hs.setRecord hholds).setWorker ?_
    rw [SettlementCall.resume]
    split
    · trivial
    · next settlement hstatus => exact fun _ h => hholds.settlement (by rw [hstatus]; exact h)
    · next c hstatus =>
      rw [hstatus, houtput] at hholds
      exact ⟨houtput, haccounts, hholds⟩
  · exact hs.setWorker trivial

theorem Sound.compute (worker limit : Nat) :
    (s.compute scope codec worker limit).Sound scope codec := by
  rw [SettlementSystem.compute]
  split
  · next call record c hworker =>
    have hloaded := hs.workers worker
    rw [hworker] at hloaded
    obtain ⟨houtput, haccounts, hholds⟩ := hloaded
    split
    · next status hstatus =>
      refine hs.setWorker ?_
      rw [houtput]
      exact advanceSettlement_holds haccounts hholds hstatus
    · exact hs.setWorker trivial
  · exact hs

theorem Sound.replace (worker : Nat) : (s.replace scope worker).Sound scope codec := by
  rw [SettlementSystem.replace]
  split
  · next call expected replacement current hworker hcurrent =>
    have hcomputed := hs.workers worker
    rw [hworker] at hcomputed
    split
    · split
      · exact (hs.setRecord hcomputed).setWorker fun _ h => hcomputed.settlement h
      · refine hs.setWorker ?_
        rw [SettlementCall.concurrent]
        split
        · exact fun _ h => (hs.record current hcurrent).settlement h
        · trivial
    · exact hs.setWorker trivial
  · exact hs.setWorker trivial
  · exact hs

/-- A step keeps what holds of the record and of the workers. -/
theorem Sound.step {step : SettlementStep}
    (haccounts : ∀ worker call, step = .start worker call → scope.Accounts call) :
    (s.step scope codec step).Sound scope codec := by
  cases step with
  | start worker call => exact hs.start (haccounts worker call rfl) worker
  | compute worker limit => exact hs.compute worker limit
  | replace worker => exact hs.replace worker
  | crash worker => exact hs.setWorker trivial
  | generation job => exact ⟨hs.record, hs.workers⟩

/-- What holds of the record and of the workers holds after every run. -/
theorem Sound.foldl {steps : List SettlementStep}
    (haccounts : ∀ worker call, .start worker call ∈ steps → scope.Accounts call) :
    (steps.foldl (SettlementSystem.step scope codec) s).Sound scope codec := by
  induction steps generalizing s with
  | nil => exact hs
  | cons first steps ih =>
    refine ih (hs.step fun worker call h => haccounts worker call ?_) fun worker call h =>
      haccounts worker call (mem_cons_of_mem _ h)
    exact h ▸ mem_cons_self

end

/-- Every settlement that a call returns binds the non-control files of the output collection, in
the order of the inventory, one to one to the declared outputs. -/
theorem settlement_binds_declared_outputs (scope : SettlementScope) (codec : SettlementCodec)
    (job : Option Digest) (steps : List SettlementStep)
    (haccounts : ∀ worker call, .start worker call ∈ steps → scope.Accounts call) (worker : Nat)
    (settlement : TargetSettlementAuthority)
    (h : (run scope codec job steps).workers worker = .returned (some settlement)) :
    ∃ collection bound, scope.BindsExactly codec settlement collection bound := by
  have hsound : (run scope codec job steps).Sound scope codec :=
    (sound_initial job).foldl haccounts
  have hreturned := hsound.workers worker
  rw [h] at hreturned
  exact hreturned settlement rfl

end SettlementSystem

end Settlement

namespace OneFile

/-- A collection of one output and one control file. -/
def collection : FinalCollection where
  contentIdentity := "c"
  inventoryIdentity := "i"
  files := ⟨[⟨"out", 1, "x"⟩, ⟨"riverhog/manifest", 7, "m"⟩], by decide⟩

/-- A declared output that is the file of the collection. -/
def bound : OutputArtifact := ⟨"a", "main", "out", 1, "x", none⟩

/-- Another declared output at the same path. -/
def unbound : OutputArtifact := ⟨"b", "main", "out", 2, "y", none⟩

/-- One or both outputs are declared. -/
def scope (both : Bool) : SettlementScope where
  jobId := "j"
  catalog := fun id => if id = 1 then some collection else none
  declared := ⟨bound :: if both then [unbound] else [], by cases both <;> decide⟩

/-- A codec that writes the identifier of the output. -/
def codec : SettlementCodec where
  binding b := .ok (encodeUtf8 b.outputId)
  settlementSha256 _ := .ok "s"
  emptyBindings := "Input should be greater than or equal to 1"

/-- A target that reports one output. -/
def call : SettlementCall where
  output := ⟨1, "r", "c", "d"⟩
  production :=
    { jobId := "j", planSha256 := "p", outputs := ⟨1, 1, [], "o"⟩,
      dispositionCount := 1, dispositionSha256 := "q", sourceEdgeCount := 1,
      sourceEdgeSha256 := "e", riverhogDispositionSet := ⟨1, 1, 1, "h"⟩ }
  productionSha256 := "t"

/-- One worker runs a call to its end. -/
def steps (limit : Nat) : List SettlementStep :=
  [.start 0 call, .compute 0 limit, .replace 0]

/-- Two pages of one row. -/
def pages : List SettlementStep := steps 1 ++ steps 1

/-- The settlement of the one file. -/
def settlement : TargetSettlementAuthority where
  jobId := "j"
  productionSha256 := "t"
  outputCollection := ⟨1, "r", "c", "d"⟩
  outputBindings := ⟨1, 1, sha256Hex (commitmentMessage bindingDomain [encodeUtf8 "a"])⟩

end OneFile

/-- Settling the one declared output in two pages of one row. -/
theorem one_file_binds_declared_output :
    (SettlementSystem.run (OneFile.scope false) OneFile.codec (some "j")
        OneFile.pages).workers 0 = .returned (some OneFile.settlement) ∧
      ∃ collection bound, (OneFile.scope false).BindsExactly OneFile.codec OneFile.settlement
        collection bound := by
  have hreturned : (SettlementSystem.run (OneFile.scope false) OneFile.codec (some "j")
      OneFile.pages).workers 0 = .returned (some OneFile.settlement) := by
    decide +kernel
  refine ⟨hreturned, SettlementSystem.settlement_binds_declared_outputs _ _ _ _ ?_ 0 _ hreturned⟩
  exact fun _ _ _ => .inl (by decide)

/-- Two outputs are declared at one path. The first is the file of the collection and the target
reports one output: the settlement is returned, for either page size, and the second output is
bound to nothing. -/
theorem settlement_leaves_declared_output_unbound : (∀ steps ∈ [OneFile.pages, OneFile.steps 1000],
      (SettlementSystem.run (OneFile.scope true) OneFile.codec (some "j") steps).workers 0 =
        .returned (some OneFile.settlement)) ∧
      ¬ ∃ collection bound, (OneFile.scope true).BindsExactly OneFile.codec OneFile.settlement
        collection bound := by
  refine ⟨by decide +kernel, ?_⟩
  rintro ⟨collection, bound, hbinds⟩
  obtain rfl : OneFile.collection = collection := Option.some.inj hbinds.final
  have hfiles : bound.length = OneFile.collection.outputFiles.length := hbinds.files.length_eq
  have houtputs := hbinds.outputs.length_eq
  rw [hfiles] at houtputs
  revert houtputs
  decide

end Riverhog.Stove0
