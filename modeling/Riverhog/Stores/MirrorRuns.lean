import Riverhog.Stores.Mirror

/-!
# What the cache can change about an archive write

The same sequence of calls is made on the archive store alone and on the mirrored store,
with the sessions that each of them gave out. `undisturbed_iff` says exactly when the two
runs cannot be told apart by what the archive answers and by the state it is left in:
`CallOk` lists, for each call, the answers of the cache that change nothing.
-/

namespace Riverhog.Stores

open Core Upload Call

/-! ## Clients -/

/-- A call of a client; sessions are named by the number of the `begin_write` that returned them. -/
inductive ClientCall where
  | beginWrite (request : WriteRequest)
  | writeSegment (slot : Nat) (number : Nat) (content : Bytes)
  | listSegments (slot : Nat)
  | completeWrite (slot : Nat) (segments : List WriteSegmentReceipt) (expected : Expected)
  | findCompletedWrite (objectPath : Text) (expected : Expected)
  | abortWrite (slot : Nat)
  deriving DecidableEq

/-- What a client sees, apart from write tokens and cache receipts. -/
inductive Visible where
  | failed
  | session (objectPath : Text) (expectedBytes : Int)
  | segment (receipt : WriteSegmentReceipt)
  | segments (receipts : List WriteSegmentReceipt)
  | completed (receipt : CompletedObjectReceipt)
  | found (receipt : Option CompletedObjectReceipt)
  | aborted
  /-- The client has no such session and makes no call. -/
  | noSession
  deriving DecidableEq

/-- A receipt without the part of the cache. -/
def withoutCache (r : CompletedObjectReceipt) : CompletedObjectReceipt :=
  { r with retrievalCache := none }

/-- A client with the sessions that it was given. -/
structure Client (s S : Type) where
  state : s
  sessions : List (Option S)

section Client

variable {s S α : Type}

/-- What is seen of a result. -/
def seen (view : α → Visible) : Except Fault α → Visible
  | .ok a => view a
  | .error _ => .failed

/-- A call that leaves the sessions as they are. -/
def Client.plain (w : Client s S) (call : Call s α) (view : α → Visible) :
    Visible × Client s S :=
  (seen view (call w.state).1, { w with state := (call w.state).2 })

/-- A call with one of the sessions. -/
def Client.withSession (w : Client s S) (slot : Nat) (call : S → Call s α) (view : α → Visible) :
    Visible × Client s S :=
  match w.sessions[slot]? with
  | some (some session) => w.plain (call session) view
  | _ => (.noSession, w)

/-- One call of a client; `view` shows a session without its token. -/
def Client.step (service : WriteService s S) (view : S → Visible) (w : Client s S) :
    ClientCall → Visible × Client s S
  | .beginWrite request =>
    let begun := service.beginWrite request w.state
    (seen view begun.1, ⟨begun.2, w.sessions ++ [begun.1.toOption]⟩)
  | .writeSegment slot number content =>
    w.withSession slot (fun session => service.writeSegment session number content) .segment
  | .listSegments slot => w.withSession slot service.listSegments .segments
  | .completeWrite slot segments expected =>
    w.withSession slot (fun session => service.completeWrite session segments expected)
      fun r => .completed (withoutCache r)
  | .findCompletedWrite objectPath expected =>
    w.plain (service.findCompletedWrite objectPath expected) fun r => .found (r.map withoutCache)
  | .abortWrite slot => w.withSession slot service.abortWrite fun _ => .aborted

/-- What each call of a script returns, and the state in which it leaves the archive. -/
def Client.trace {σ : Type} (service : WriteService s S) (view : S → Visible) (archiveOf : s → σ) :
    List ClientCall → Client s S → List (Visible × σ)
  | [], _ => []
  | call :: rest, w =>
    let next := w.step service view call
    (next.1, archiveOf next.2.state) :: Client.trace service view archiveOf rest next.2

end Client

/-- An archive session without its token. -/
def viewSession (session : WriteSession) : Visible :=
  .session session.objectPath session.expectedBytes

/-- A session of the mirror without its token. -/
def viewMirrorSession (session : MirrorSession) : Visible :=
  .session session.objectPath session.expectedBytes

section Runs

variable {σ τ : Type} (archive : ObjectStore σ) (cache : MirrorCache τ)

/-- The script on the archive store alone. -/
def aloneTrace (script : List ClientCall) (a : σ) : List (Visible × σ) :=
  Client.trace archive viewSession id script ⟨a, []⟩

/-- The script on the mirrored store. -/
def mirroredTrace (script : List ClientCall) (a : σ) (c : τ) : List (Visible × σ) :=
  Client.trace (mirror archive cache) viewMirrorSession Prod.fst script ⟨(a, c), []⟩

/-! ## The answers of the cache that change nothing -/

/-- The archive refuses the call itself, without a change. -/
def Refused {α : Type} (call : Call σ α) (a : σ) : Prop :=
  (∃ e, (call a).1 = .error e) ∧ (call a).2 = a

/-- The cache admits or declines, and the archive session is of the object asked for. -/
def BeginOk (request : WriteRequest) (a : σ) (c : τ) : Prop :=
  match (cache.admitObject request.expectedBytes c).1 with
  | .error _ => Refused (archive.beginWrite request) a
  | .ok _ => ∀ session, (archive.beginWrite request a).1 = .ok session →
      session.objectPath = request.objectPath ∧ session.expectedBytes = request.expectedBytes

section

variable (session : MirrorSession)

/-- The token is readable, and a current mirror gives out its store and a receipt of the same number
and size. -/
def SegmentOk (number : Nat) (content : Bytes) (a : σ) (c : τ) : Prop :=
  let write := archive.writeSegment session.writeToken.archive number content
  match decodeWriteToken session with
  | .error _ => Refused write a
  | .ok (_, admission, _) =>
    match cacheSession admission with
    | none => True
    | some (admission, writing) =>
      match cache.isCurrent admission c with
      | (.error _, _) => Refused write a
      | (.ok false, _) => True
      | (.ok true, c) =>
        match cache.resumableObjectStore admission c with
        | (.error _, _) => Refused write a
        | (.ok cacheObjects, c) =>
          ∀ r r', (write a).1 = .ok r → (cacheObjects.writeSegment writing number content c).1 = .ok r' →
            r.number = r'.number ∧ r.bytes = r'.bytes

/-- The token is readable, and a current mirror lists no segments at all (it raises) or every segment
of the archive with its size. -/
def ListOk (a : σ) (c : τ) : Prop :=
  let list := archive.listSegments session.writeToken.archive
  match decodeWriteToken session with
  | .error _ => Refused list a
  | .ok (_, admission, _) =>
    match cacheSession admission with
    | none => True
    | some (admission, writing) => ∀ segments, (list a).1 = .ok segments →
      match cache.isCurrent admission c with
      | (.error _, _) => False
      | (.ok false, _) => True
      | (.ok true, c) => ∀ mirrored, (cacheSegments cache admission writing c).1 = .ok mirrored →
          alsoMirrored segments mirrored = segments

/-- The token is readable and for the object as expected, and the cache says whether the mirror is
current. -/
def CompleteOk (segments : List WriteSegmentReceipt) (expected : Expected) (a : σ) (c : τ) : Prop :=
  let complete := archive.completeWrite session.writeToken.archive segments expected
  match decodeWriteToken session with
  | .error _ => Refused complete a
  | .ok (_, admission, contentType) =>
    if expected.bytes ≠ session.expectedBytes ∨ contentType ≠ expected.contentType then
      Refused complete a
    else match uncompleted admission with
      | none => True
      | some (admission, _) =>
        match (cache.isCurrent admission c).1 with
        | .error _ => Refused complete a
        | .ok _ => True

/-- For a completed object, the cache raises neither on admission nor on what follows it. -/
def FindOk (objectPath : Text) (expected : Expected) (a : σ) (c : τ) : Prop :=
  ∀ completed, (archive.findCompletedWrite objectPath expected a).1 = .ok (some completed) →
    match cache.admitObject expected.bytes c with
    | (.error _, _) => False
    | (.ok none, c) => ∃ u, (cache.release c).1 = .ok u
    | (.ok (some admission), c) => ∃ receipt, (foundInCache cache admission expected.bytes c).1 =
        .ok receipt

/-- The token is readable. -/
def AbortOk (a : σ) : Prop :=
  match decodeWriteToken session with
  | .error _ => Refused (archive.abortWrite session.writeToken.archive) a
  | .ok _ => True

end

/-- The condition on a call, in the states in which it is made. -/
def CallOk (w : Client (σ × τ) MirrorSession) (call : ClientCall) : Prop :=
  match call with
  | .beginWrite request => BeginOk archive cache request w.state.1 w.state.2
  | .writeSegment slot number content => ∀ session, w.sessions[slot]? = some (some session) →
      SegmentOk archive cache session number content w.state.1 w.state.2
  | .listSegments slot => ∀ session, w.sessions[slot]? = some (some session) →
      ListOk archive cache session w.state.1 w.state.2
  | .completeWrite slot segments expected => ∀ session, w.sessions[slot]? = some (some session) →
      CompleteOk archive cache session segments expected w.state.1 w.state.2
  | .findCompletedWrite objectPath expected =>
      FindOk archive cache objectPath expected w.state.1 w.state.2
  | .abortWrite slot => ∀ session, w.sessions[slot]? = some (some session) →
      AbortOk archive session w.state.1

/-- Every call of a script meets its condition when it is made. -/
def Undisturbed : List ClientCall → Client (σ × τ) MirrorSession → Prop
  | [], _ => True
  | call :: rest, w => CallOk archive cache w call ∧
      Undisturbed rest (w.step (mirror archive cache) viewMirrorSession call).2

/-! ## Single calls -/

/-- The two stores answer alike and leave the archive alike. -/
def Alike {α β : Type} (view : α → Visible) (view' : β → Visible) (x : Except Fault α × σ)
    (y : Except Fault β × σ × τ) : Prop :=
  seen view x.1 = seen view' y.1 ∧ x.2 = y.2.1

variable {archive cache}

variable {w : Client (σ × τ) MirrorSession} {call : ClientCall} {session : MirrorSession} {α : Type}
  {view : α → Visible} {a : σ} {c : τ}

variable {content : Bytes} {expected : Expected} {number : Nat} {β : Type} {request : WriteRequest}
  {view' : β → Visible}

omit archive cache in
/-- An exception of the mirror before it asks the archive. -/
theorem alike_error_iff (hview : ∀ x, view x ≠ .failed) {call : Call σ α} {e : Fault} :
    Alike view view' (call a) (.error e, a, c) ↔ Refused call a := by
  rw [Alike, Refused]
  refine and_congr_left fun _ => ?_
  cases (call a).1 with
  | ok x => simp [seen, hview]
  | error e' => simp [seen]

omit archive cache in
/-- What the mirror passes on. -/
theorem alike_self {call : Call σ α} :
    Alike view view (call a) ((call a).1, (call a).2, c) := ⟨rfl, rfl⟩

omit archive cache in
theorem decodeWriteToken_eq_ok {x : WriteSession × Option CacheAdmission × Text}
    (h : decodeWriteToken session = .ok x) :
    x = (session.writeToken.archive, session.writeToken.cache,
      strip session.writeToken.contentType) := by
  simp only [decodeWriteToken, bind_eq_ok] at h
  obtain ⟨_, -, _, -, _, -, _, -, _, -, h⟩ := h
  exact (Except.ok.inj h).symm

omit archive in
@[simp] theorem releaseOptionalCache_apply (a : σ) (c : τ) :
    releaseOptionalCache cache (a, c) = (.ok (), a, (cache.release c).2) := rfl

omit archive in
@[simp] theorem releaseOptionalCache_bind (f : Unit → Call (σ × τ) α) (a : σ) (c : τ) :
    (releaseOptionalCache cache >>= f) (a, c) = f () (a, (cache.release c).2) := rfl

theorem begin_alike_iff :
    Alike viewSession viewMirrorSession (archive.beginWrite request a)
      (mirrorBegin archive cache request (a, c)) ↔ BeginOk archive cache request a c := by
  rw [mirrorBegin, bind_apply, onSecond_apply, BeginOk]
  cases (cache.admitObject request.expectedBytes c).1 with
  | error e => exact alike_error_iff fun _ => by simp [viewSession]
  | ok admission =>
    simp only [bind_apply, attempt_apply, onFirst_apply]
    cases hb : (archive.beginWrite request a).1 with
    | error e => simp [Alike, seen, hb]
    | ok session =>
      cases admission <;> simp [Alike, seen, hb, viewSession, viewMirrorSession, bind_apply]

/-- A session of the mirror carries the session of the archive. -/
theorem mirrorBegin_session (h : (mirrorBegin archive cache request (a, c)).1 = .ok session) :
    (archive.beginWrite request a).1 = .ok session.writeToken.archive := by
  rw [mirrorBegin, bind_apply, onSecond_apply] at h
  cases ha : (cache.admitObject request.expectedBytes c).1 with
  | error e => simp [ha] at h
  | ok admission =>
    simp only [ha, bind_apply, attempt_apply, onFirst_apply] at h
    cases hb : (archive.beginWrite request a).1 with
    | error e => simp [hb] at h
    | ok archiveSession =>
      cases admission <;>
      · simp only [hb, Option.isNone_none, Option.isNone_some, if_true, Bool.false_eq_true, if_false,
          releaseOptionalCache_apply, bind_apply, pure_apply, Except.ok.injEq] at h
        rw [← h]

/-- Both writes of a segment: the archive answers for itself unless the receipts disagree. -/
theorem both_alike_iff {session writing : WriteSession} {cacheObjects : ObjectStore τ} :
    Alike .segment .segment (archive.writeSegment session number content a)
        (mirrorBoth archive cache session writing cacheObjects number content (a, c)) ↔
      ∀ r r', (archive.writeSegment session number content a).1 = .ok r →
        (cacheObjects.writeSegment writing number content c).1 = .ok r' →
        r.number = r'.number ∧ r.bytes = r'.bytes := by
  simp only [mirrorBoth, bind_apply, attempt_apply, onFirst_apply, onSecond_apply]
  cases hm : (cacheObjects.writeSegment writing number content c).1 with
  | error e => simp [Alike]
  | ok r' =>
    cases hw : (archive.writeSegment session number content a).1 with
    | error e => simp [Alike, hw, seen, bind_apply]
    | ok r =>
      by_cases hne : r.number ≠ r'.number ∨ r.bytes ≠ r'.bytes
      · have hnot : ¬ (r.number = r'.number ∧ r.bytes = r'.bytes) := by tauto
        simp [Alike, hw, seen, bind_apply, hne, hnot]
      · have hboth : r.number = r'.number ∧ r.bytes = r'.bytes := by tauto
        simp [Alike, hw, seen, bind_apply, hboth]

theorem segment_alike_iff :
    Alike .segment .segment (archive.writeSegment session.writeToken.archive number content a)
        (mirrorSegment archive cache session number content (a, c)) ↔
      SegmentOk archive cache session number content a c := by
  rw [mirrorSegment, bind_apply, ofExcept_apply, SegmentOk]
  cases hd : decodeWriteToken session with
  | error e => exact alike_error_iff fun _ => by simp
  | ok x =>
    obtain rfl := decodeWriteToken_eq_ok hd
    dsimp only
    cases hs : cacheSession session.writeToken.cache with
    | none => exact iff_of_true alike_self trivial
    | some pair =>
      obtain ⟨admission, writing⟩ := pair
      simp only [bind_apply, onSecond_apply]
      rcases cache.isCurrent admission c with ⟨_ | current, c₁⟩
      · exact alike_error_iff fun _ => by simp
      · cases current with
        | false => exact iff_of_true alike_self trivial
        | true =>
          simp only [if_true, bind_apply, onSecond_apply]
          rcases cache.resumableObjectStore admission c₁ with ⟨_ | cacheObjects, c₂⟩
          · exact alike_error_iff fun _ => by simp
          · exact both_alike_iff

theorem list_alike_iff :
    Alike .segments .segments (archive.listSegments session.writeToken.archive a)
        (mirrorList archive cache session (a, c)) ↔ ListOk archive cache session a c := by
  rw [mirrorList, bind_apply, ofExcept_apply, ListOk]
  cases hd : decodeWriteToken session with
  | error e => exact alike_error_iff fun _ => by simp
  | ok x =>
    obtain rfl := decodeWriteToken_eq_ok hd
    simp only [bind_apply, onFirst_apply]
    cases hl : (archive.listSegments session.writeToken.archive a).1 with
    | error e =>
      have halike : Alike .segments .segments (archive.listSegments session.writeToken.archive a)
          (.error e, (archive.listSegments session.writeToken.archive a).2, c) := by
        rw [← hl]
        exact alike_self
      refine iff_of_true halike ?_
      split <;> simp
    | ok segments =>
      cases hs : cacheSession session.writeToken.cache with
      | none => simp [Alike, hl]
      | some pair =>
        obtain ⟨admission, writing⟩ := pair
        simp only [bind_apply, onSecond_apply, Except.ok.injEq, forall_eq']
        rcases cache.isCurrent admission c with ⟨_ | current, c₁⟩
        · simp [Alike, hl, seen]
        · cases current with
          | false => simp [Alike, hl]
          | true =>
            simp only [if_true, bind_apply, attempt_apply, onSecond_apply]
            cases hc : (cacheSegments cache admission writing c₁).1 with
            | error e => simp [Alike, hl]
            | ok mirrored => simp [Alike, hl, seen, eq_comm]

/-- What is done in the cache before a completion changes nothing in the archive; only the question
whether the mirror is current can raise. -/
theorem completeMirrored_cases (admission : Option CacheAdmission)
    (segments : List WriteSegmentReceipt) (bytes : Int) (a : σ) (c : τ) :
    (∃ e c', completeMirrored cache admission segments bytes (a, c) = (.error e, a, c') ∧
      ∃ pair, uncompleted admission = some pair ∧ ∃ e', (cache.isCurrent pair.1 c).1 = .error e') ∨
    (∃ receipt c', completeMirrored cache admission segments bytes (a, c) = (.ok receipt, a, c') ∧
      ∀ pair, uncompleted admission = some pair → ∃ b, (cache.isCurrent pair.1 c).1 = .ok b) := by
  rw [completeMirrored]
  cases hu : uncompleted admission with
  | none => exact .inr ⟨_, c, rfl, by simp⟩
  | some pair =>
    obtain ⟨admission, writing⟩ := pair
    simp only [bind_apply, onSecond_apply, Option.some.injEq, exists_eq_left', forall_eq']
    rcases cache.isCurrent admission c with ⟨e | current, c₁⟩
    · exact .inl ⟨e, c₁, rfl, e, rfl⟩
    · right
      cases current with
      | false => exact ⟨none, c₁, rfl, false, rfl⟩
      | true =>
        simp only [if_true, bind_apply, attempt_apply, onSecond_apply]
        cases (completeInCache cache admission writing segments bytes c₁).1 with
        | error e => exact ⟨none, _, rfl, true, rfl⟩
        | ok receipt => exact ⟨some receipt, _, rfl, true, rfl⟩

theorem complete_alike_iff {segments : List WriteSegmentReceipt} :
    Alike (fun r => .completed (withoutCache r)) (fun r => .completed (withoutCache r))
        (archive.completeWrite session.writeToken.archive segments expected a)
        (mirrorComplete archive cache session segments expected (a, c)) ↔
      CompleteOk archive cache session segments expected a c := by
  rw [mirrorComplete, bind_apply, ofExcept_apply, CompleteOk]
  cases hd : decodeWriteToken session with
  | error e => exact alike_error_iff fun _ => by simp
  | ok x =>
    obtain rfl := decodeWriteToken_eq_ok hd
    dsimp only
    by_cases hb : expected.bytes ≠ session.expectedBytes
    · rw [if_pos hb, if_pos (.inl hb)]
      exact alike_error_iff fun _ => by simp
    rw [if_neg hb]
    by_cases ht : strip session.writeToken.contentType ≠ expected.contentType
    · rw [if_pos ht, if_pos (.inr ht)]
      exact alike_error_iff fun _ => by simp
    rw [if_neg ht, if_neg (not_or.2 ⟨hb, ht⟩), bind_apply]
    rcases @completeMirrored_cases σ τ cache session.writeToken.cache segments expected.bytes a c
      with ⟨e, c₁, hm, pair, hu, e', he'⟩ | ⟨receipt, c₁, hm, hok⟩
    · rw [hm, hu]
      dsimp only
      rw [he']
      exact alike_error_iff fun _ => by simp
    · rw [hm]
      have hright : (match uncompleted session.writeToken.cache with
          | none => True
          | some (admission, _) =>
            match (cache.isCurrent admission c).1 with
            | .error _ => Refused (archive.completeWrite session.writeToken.archive segments
                expected) a
            | .ok _ => True) := by
        cases hu : uncompleted session.writeToken.cache with
        | none => trivial
        | some pair =>
          obtain ⟨b, hb⟩ := hok pair hu
          simp only [hb]
      refine iff_of_true ?_ hright
      simp only [bind_apply, onFirst_apply]
      cases hc : (archive.completeWrite session.writeToken.archive segments expected a).1 with
      | error e => simp [Alike, hc, seen]
      | ok completed =>
        by_cases hrelease : (session.writeToken.cache.isSome && receipt.isNone) = true
        · simp [Alike, hc, seen, hrelease, withoutCache]
        · simp [Alike, hc, seen, hrelease, withoutCache]

theorem find_alike_iff {objectPath : Text} :
    Alike (fun r => .found (r.map withoutCache)) (fun r => .found (r.map withoutCache))
        (archive.findCompletedWrite objectPath expected a)
        (mirrorFind archive cache objectPath expected (a, c)) ↔
      FindOk archive cache objectPath expected a c := by
  simp only [mirrorFind, bind_apply, onFirst_apply, FindOk]
  cases hf : (archive.findCompletedWrite objectPath expected a).1 with
  | error e => simp [Alike, hf, seen]
  | ok found =>
    cases found with
    | none => simp [Alike, hf, seen]
    | some completed =>
      simp only [bind_apply, onSecond_apply, Except.ok.injEq, Option.some.injEq, forall_eq']
      rcases cache.admitObject expected.bytes c with ⟨_ | admission, c₁⟩
      · simp [Alike, hf, seen]
      · cases admission with
        | none =>
          simp only [bind_apply, onSecond_apply]
          cases hr : (cache.release c₁).1 with
          | error e => simp [Alike, hf, seen]
          | ok u => simp [Alike, hf, seen]
        | some admission =>
          simp only [bind_apply, onSecond_apply]
          cases hr : (foundInCache cache admission expected.bytes c₁).1 with
          | error e => simp [Alike, hf, seen]
          | ok receipt =>
            cases receipt with
            | none => simp [Alike, hf, seen]
            | some receipt => simp [Alike, hf, seen, withoutCache]

theorem abort_alike_iff :
    Alike (fun _ => .aborted) (fun _ => .aborted) (archive.abortWrite session.writeToken.archive a)
        (mirrorAbort archive cache session (a, c)) ↔ AbortOk archive session a := by
  rw [mirrorAbort, bind_apply, ofExcept_apply, AbortOk]
  cases hd : decodeWriteToken session with
  | error e => exact alike_error_iff fun _ => by simp
  | ok x =>
    obtain rfl := decodeWriteToken_eq_ok hd
    exact iff_of_true ⟨rfl, rfl⟩ trivial

/-! ## Runs -/

/-- The client of the archive store alone, in step with a client of the mirror. -/
def aloneClient (w : Client (σ × τ) MirrorSession) : Client σ WriteSession :=
  ⟨w.state.1, w.sessions.map fun session => session.map fun x => x.writeToken.archive⟩

/-- Both clients see the same, and the archive is left alike. -/
def StepsAlike (x : Visible × Client σ WriteSession) (y : Visible × Client (σ × τ) MirrorSession) :
    Prop := x.1 = y.1 ∧ x.2.state = y.2.state.1

/-- A call with a session. -/
theorem withSession_alike {slot : Nat} {call : WriteSession → Call σ α}
    {call' : MirrorSession → Call (σ × τ) β} {P : MirrorSession → Prop}
    (h : ∀ session, Alike view view' (call session.writeToken.archive w.state.1)
      (call' session w.state) ↔ P session) :
    StepsAlike ((aloneClient w).withSession slot call view) (w.withSession slot call' view') ↔
      ∀ session, w.sessions[slot]? = some (some session) → P session := by
  have hget : (aloneClient w).sessions[slot]? =
      w.sessions[slot]?.map fun session => session.map fun x => x.writeToken.archive :=
    List.getElem?_map
  rw [Client.withSession, Client.withSession, hget]
  rcases hs : w.sessions[slot]? with _ | _ | session
  · simp [StepsAlike, aloneClient]
  · simp [StepsAlike, aloneClient]
  · simp only [Option.map_some, Option.some.injEq, forall_eq', ← h]
    exact Iff.rfl

theorem step_alike_iff :
    StepsAlike ((aloneClient w).step archive viewSession call)
        (w.step (mirror archive cache) viewMirrorSession call) ↔ CallOk archive cache w call := by
  cases call with
  | beginWrite request => exact begin_alike_iff
  | writeSegment slot number content => exact withSession_alike fun _ => segment_alike_iff
  | listSegments slot => exact withSession_alike fun _ => list_alike_iff
  | completeWrite slot segments expected => exact withSession_alike fun _ => complete_alike_iff
  | findCompletedWrite objectPath expected => exact find_alike_iff
  | abortWrite slot => exact withSession_alike fun _ => abort_alike_iff

theorem withSession_sessions {s S : Type} (w : Client s S) (slot : Nat) (call : S → Call s α)
    (view : α → Visible) : (w.withSession slot call view).2.sessions = w.sessions := by
  unfold Client.withSession
  split <;> rfl

/-- Only `begin_write` adds a session. -/
theorem step_sessions {s S : Type} {service : WriteService s S} {view : S → Visible}
    {w : Client s S} (hc : ∀ request, call ≠ .beginWrite request) :
    (w.step service view call).2.sessions = w.sessions := by
  cases call with
  | beginWrite request => exact absurd rfl (hc request)
  | findCompletedWrite objectPath expected => rfl
  | writeSegment | listSegments | completeWrite | abortWrite => exact withSession_sessions ..

/-- Clients that saw the same stay in step. -/
theorem StepsAlike.client (h : StepsAlike ((aloneClient w).step archive viewSession call)
      (w.step (mirror archive cache) viewMirrorSession call)) :
    ((aloneClient w).step archive viewSession call).2 =
      aloneClient (w.step (mirror archive cache) viewMirrorSession call).2 := by
  have hsessions : ((aloneClient w).step archive viewSession call).2.sessions =
      (aloneClient (w.step (mirror archive cache) viewMirrorSession call).2).sessions := by
    by_cases hc : ∃ request, call = .beginWrite request
    · obtain ⟨request, rfl⟩ := hc
      -- both begin a session or neither does, and then it is the same session
      have hseen : seen viewSession (archive.beginWrite request w.state.1).1 =
          seen viewMirrorSession (mirrorBegin archive cache request w.state).1 := h.1
      have hlast : (archive.beginWrite request w.state.1).1.toOption =
          (mirrorBegin archive cache request w.state).1.toOption.map
            fun x => x.writeToken.archive := by
        cases hm : (mirrorBegin archive cache request w.state).1 with
        | error e =>
          rw [hm] at hseen
          cases ha : (archive.beginWrite request w.state.1).1 with
          | error e' => rfl
          | ok session => simp [ha, seen, viewSession] at hseen
        | ok session => rw [mirrorBegin_session hm]; rfl
      simp only [Client.step, aloneClient, List.map_append, hlast]
      rfl
    · have hc' : ∀ request, call ≠ .beginWrite request := fun request he => hc ⟨request, he⟩
      rw [step_sessions hc', aloneClient, aloneClient, step_sessions hc']
  have hstate := h.2
  generalize ((aloneClient w).step archive viewSession call).2 = x at hsessions hstate ⊢
  cases x
  exact congr (congrArg Client.mk hstate) hsessions

/-- Along a whole script, from clients in step. -/
theorem trace_eq_iff (script : List ClientCall) (w : Client (σ × τ) MirrorSession) :
    Client.trace archive viewSession id script (aloneClient w) =
        Client.trace (mirror archive cache) viewMirrorSession Prod.fst script w ↔
      Undisturbed archive cache script w := by
  induction script generalizing w with
  | nil => exact iff_of_true rfl trivial
  | cons call rest ih =>
    rw [Client.trace, Client.trace, Undisturbed, ← step_alike_iff, List.cons_eq_cons,
      Prod.mk.injEq, ← ih]
    refine and_congr_right fun h => ?_
    rw [StepsAlike.client h]

/-- The mirrored store cannot be told from the archive store alone, exactly in the runs in which every
call gets an answer of the cache that changes nothing. -/
theorem undisturbed_iff (archive : ObjectStore σ) (cache : MirrorCache τ) (script : List ClientCall)
    (a : σ) (c : τ) :
    aloneTrace archive script a = mirroredTrace archive cache script a c ↔
      Undisturbed archive cache script ⟨(a, c), []⟩ :=
  trace_eq_iff script ⟨(a, c), []⟩

end Runs

/-- A cache that has lost a segment hides the segment that the archive lists. -/
theorem list_hides_segment :
    ∃ (archive : ObjectStore (List WriteSegmentReceipt)) (cache : MirrorCache Unit)
      (script : List ClientCall),
      (aloneTrace archive script []).map Prod.fst ≠
        (mirroredTrace archive cache script [] ()).map Prod.fst := by
  let receipt (number : Nat) (content : Bytes) : WriteSegmentReceipt :=
    ⟨number, ['t'], content.length, none⟩
  let archive : ObjectStore (List WriteSegmentReceipt) :=
    { beginWrite := fun request => pure ⟨request.objectPath, ['w'], request.expectedBytes⟩
      writeSegment := fun _ number content written =>
        (.ok (receipt number content), written ++ [receipt number content])
      listSegments := fun _ written => (.ok written, written)
      completeWrite := fun _ _ _ => raise (.store [])
      findCompletedWrite := fun _ _ => pure none
      abortWrite := fun _ => pure () }
  let lossy : ObjectStore Unit :=
    { beginWrite := fun _ => raise (.store [])
      writeSegment := fun _ number content => pure (receipt number content)
      listSegments := fun _ => pure []
      completeWrite := fun _ _ _ => raise (.store [])
      findCompletedWrite := fun _ _ => pure none
      abortWrite := fun _ => pure () }
  let cache : MirrorCache Unit :=
    { admitObject := fun bytes =>
        pure (some ⟨['o'], ['c'], ['s'], 1, ['v'], ['p'], bytes, some ['w'], ['d'], none⟩)
      release := pure ()
      isCurrent := fun _ => pure true
      resumableObjectStore := fun _ => pure lossy }
  let script : List ClientCall :=
    [.beginWrite ⟨['a'], 1, ['b'], []⟩, .writeSegment 0 1 [0], .listSegments 0]
  exact ⟨archive, cache, script, by decide +kernel⟩

end Riverhog.Stores
