import Riverhog.Pack.Layout
import Riverhog.Pack.Render

/-!
# What rendering produces

Rendering the units of a plan never meets a byte count that differs from the plan.
`Renders` is the rule for one piece of the renderer: when the sources match the plan,
the piece appends exactly the bytes of its members and moves both counters by their
number; when they do not, it raises the `ValueError` of the first source that differs.
-/

namespace Riverhog.Pack

open Core Protocol RenderState List

/-! ## What a unit should render to -/

/-- The header blocks that `_tar_header` returns. -/
def headerBytes (path : Text) (size : Nat) : Bytes := (tarHeader path size).toOption.getD []

variable {header : Bytes} {members : List PackMemberPlan} {start stop unit : Nat} {s : RenderState}

theorem headerBytes_eq {path : Text} {size : Nat} (h : tarHeader path size = .ok header) :
    headerBytes path size = header := by
  rw [headerBytes, h]
  rfl

/-- A member: header blocks, data, and zeros up to a whole block. -/
def memberBytes (path : Text) (size : Nat) (content : Bytes) : Bytes :=
  headerBytes path size ++ content ++ zeros (tarPadding size)

/-- A source as it is read. -/
def sourceBytes (readSourceChunks : Text → List Bytes) (f : ArchiveFile) : Bytes :=
  memberBytes f.path f.bytes (readSourceChunks f.path).flatten

def PackPaddingPlan.memberBytes (p : PackPaddingPlan) : Bytes :=
  Pack.memberBytes p.path p.payloadBytes (zeros p.payloadBytes)

/-- The bytes of a unit. -/
def unitBytes (plan : PackVolumePlan) (readSourceChunks : Text → List Bytes)
    (u : PackUploadUnitPlan) : Bytes :=
  u.sources.flatMap (sourceBytes readSourceChunks) ++
    u.padding.toList.flatMap PackPaddingPlan.memberBytes ++
    (if u.includesIndex then
      memberBytes packIndexPath plan.indexBytes.length plan.indexBytes else []) ++
    if u.includesEndMarkers then zeros (tarBlockSize * 2) else []

/-- The source has the planned size and digest. -/
def Matches (readSourceChunks : Text → List Bytes) (f : ArchiveFile) : Prop :=
  (readSourceChunks f.path).flatten.length = f.bytes ∧
    sha256Hex (readSourceChunks f.path).flatten = f.sha256

/-! ## One piece of the renderer -/

/-- The computation raises a `ValueError`. -/
def Refuses {α : Type} (x : Py α) : Prop := ∃ message, x = .error (.valueError message)

/-- From `s` the computation appends `bytes` to the output and moves both counters by their
number if the sources match, and raises a `ValueError` if they do not. -/
structure Renders (sourcesMatch : Prop) (s : RenderState) (x : Py RenderState) (bytes : Bytes) :
    Prop where
  returns : sourcesMatch → ∃ t, x = .ok t ∧ t.absoluteCursor = s.absoluteCursor + bytes.length ∧
    t.emitted = s.emitted + bytes.length ∧ t.output.flatten = s.output.flatten ++ bytes
  refuses : ¬ sourcesMatch → Refuses x

namespace RenderState

theorem emit_absoluteCursor (s : RenderState) (data : Bytes) :
    (s.emit data).absoluteCursor = s.absoluteCursor := by
  rw [emit]
  split_ifs <;> rfl

theorem emit_emitted (s : RenderState) (data : Bytes) :
    (s.emit data).emitted = s.emitted + data.length := by
  rw [emit]
  split_ifs with h
  · rw [isEmpty_iff.1 h]
    rfl
  · rfl

theorem emit_output (s : RenderState) (data : Bytes) :
    (s.emit data).output.flatten = s.output.flatten ++ data := by
  rw [emit]
  split_ifs with h
  · rw [isEmpty_iff.1 h, append_nil]
  · simp

end RenderState

namespace Renders

variable {p q : Prop} {s : RenderState} {x : Py RenderState} {a b : Bytes}

/-- A piece that does nothing. -/
theorem nil (hp : p) : Renders p s (.ok s) [] :=
  ⟨fun _ => ⟨s, rfl, rfl, rfl, (append_nil _).symm⟩, fun h => absurd hp h⟩

/-- One piece after the other. -/
theorem bind {f : RenderState → Py RenderState} (hx : Renders p s x a)
    (hf : p → ∀ t, t.absoluteCursor = s.absoluteCursor + a.length → Renders q t (f t) b) :
    Renders (p ∧ q) s (x >>= f) (a ++ b) where
  returns h := by
    obtain ⟨t, rfl, hc, he, ho⟩ := hx.returns h.1
    obtain ⟨t', ht', hc', he', ho'⟩ := (hf h.1 t hc).returns h.2
    refine ⟨t', ht', ?_, ?_, ?_⟩
    · rw [hc', hc, length_append, Nat.add_assoc]
    · rw [he', he, length_append, Nat.add_assoc]
    · rw [ho', ho, append_assoc]
  refuses h := by
    by_cases hp : p
    · obtain ⟨t, rfl, hc, -, -⟩ := hx.returns hp
      exact (hf hp t hc).refuses fun hq => h ⟨hp, hq⟩
    · obtain ⟨message, rfl⟩ := hx.refuses hp
      exact ⟨message, rfl⟩

/-- Only what the condition says matters. -/
theorem congr (hpq : p ↔ q) (h : Renders p s x a) : Renders q s x a :=
  ⟨fun hq => h.returns (hpq.2 hq), fun hq => h.refuses fun hp => hq (hpq.1 hp)⟩

/-- Chunks emitted in a row, and the cursor moved past them. -/
theorem emit_advance (hp : p) {t : RenderState} {count : Nat}
    (hc : t.absoluteCursor = s.absoluteCursor) (he : t.emitted = s.emitted + a.length)
    (ho : t.output.flatten = s.output.flatten ++ a) (hn : count = a.length) :
    Renders p s (.ok (t.advance count)) a :=
  ⟨fun _ => ⟨_, rfl, by rw [advance, hc, hn], he, ho⟩, fun h => absurd hp h⟩

end Renders

/-- The chunk loop emits the whole source, unless it is longer than declared. -/
theorem emitSource_spec (source : ArchiveFile) (chunks : List Bytes) {byteCount : Nat}
    (hb : byteCount ≤ source.bytes) (digested : Bytes) (s : RenderState) :
    (source.bytes < byteCount + chunks.flatten.length →
      Refuses (emitSource source chunks byteCount digested s)) ∧
    (byteCount + chunks.flatten.length ≤ source.bytes →
      ∃ t, emitSource source chunks byteCount digested s =
          .ok (byteCount + chunks.flatten.length, digested ++ chunks.flatten, t) ∧
        t.absoluteCursor = s.absoluteCursor ∧
        t.emitted = s.emitted + chunks.flatten.length ∧
        t.output.flatten = s.output.flatten ++ chunks.flatten) := by
  induction chunks generalizing byteCount digested s with
  | nil =>
    refine ⟨fun h => ?_, fun _ => ⟨s, by simp [emitSource], rfl, rfl, by simp⟩⟩
    rw [flatten_nil, length_nil] at h
    omega
  | cons data chunks ih =>
    rw [emitSource, flatten_cons, length_append]
    by_cases hd : data.isEmpty = true
    · rw [if_pos hd, isEmpty_iff.1 hd, length_nil, Nat.zero_add, nil_append]
      exact ih hb digested s
    · rw [if_neg hd]
      dsimp only
      by_cases hb' : byteCount + data.length ≤ source.bytes
      · obtain ⟨ih₁, ih₂⟩ := ih hb' (digested ++ data) (s.emit data)
        rw [decide_eq_true hb', require_true, ok_bind]
        refine ⟨fun h => ih₁ (by omega), fun h => ?_⟩
        obtain ⟨t, ht, hc, he, ho⟩ := ih₂ (by omega)
        refine ⟨t, ?_, ?_, ?_, ?_⟩
        · rw [ht, append_assoc, Nat.add_assoc]
        · rw [hc, emit_absoluteCursor]
        · rw [he, emit_emitted, Nat.add_assoc]
        · rw [ho, emit_output, append_assoc]
      · rw [decide_eq_false hb']
        refine ⟨fun _ => ⟨_, rfl⟩, fun h => ?_⟩
        omega

variable {f : ArchiveFile} {padding : Option PackPaddingPlan} {readSourceChunks : Text → List Bytes}
  {u : PackUploadUnitPlan}

theorem length_sourceBytes (hh : tarHeader f.path f.bytes = .ok header)
    (hm : Matches readSourceChunks f) :
    (sourceBytes readSourceChunks f).length = header.length + f.bytes + tarPadding f.bytes := by
  rw [sourceBytes, memberBytes, headerBytes_eq hh, length_append, length_append, hm.1, length_zeros]

/-- A source that its member plan places at the cursor. -/
theorem renderSource_renders (readSourceChunks : Text → List Bytes)
    (hh : tarHeader f.path f.bytes = .ok header)
    (hl : lookupMember members f.path = .ok (placedAt unit s.absoluteCursor header.length f)) :
    Renders (Matches readSourceChunks f) s (renderSource members unit readSourceChunks f s)
      (sourceBytes readSourceChunks f) := by
  set s₁ := (s.emit header).advance header.length with hs₁
  have hc₁ : s₁.absoluteCursor = s.absoluteCursor + header.length := by
    rw [hs₁, advance, emit_absoluteCursor]
  have hstart : renderSource members unit readSourceChunks f s =
      emitSource f (readSourceChunks f.path) 0 [] s₁ >>= fun r => do
        require (r.1 == f.bytes) (.valueError
          ("pack source byte count mismatch: " ++ String.ofList f.path))
        require (sha256Hex r.2.1 == f.sha256) (.valueError
          ("pack source sha256 mismatch: " ++ String.ofList f.path))
        let s := ((r.2.2.advance f.bytes).emit (zeros (tarPadding f.bytes))).advance (tarPadding f.bytes)
        require (s.absoluteCursor == s₁.absoluteCursor + f.bytes + tarPadding f.bytes)
          (.runtimeError "pack member end offset is inconsistent")
        return s := by
    rw [renderSource, hl, ok_bind, hh]
    simp only [placedAt, BEq.rfl, Bool.and_self, require_true, ok_bind, hc₁]
    rw [← hs₁, hc₁]
    simp only [BEq.rfl, require_true, ok_bind]
  obtain ⟨hlong, hfits⟩ := emitSource_spec f (readSourceChunks f.path) (Nat.zero_le _) [] s₁
  rw [Nat.zero_add] at hlong hfits
  rw [hstart]
  constructor
  · intro hm
    obtain ⟨t, ht, hc, he, ho⟩ := hfits hm.1.le
    rw [ht, ok_bind]
    dsimp only
    rw [nil_append, hm.1, hm.2]
    simp only [BEq.rfl, require_true, ok_bind, advance, emit_absoluteCursor, hc, pure, Except.pure]
    refine ⟨_, rfl, ?_, ?_, ?_⟩
    · rw [length_sourceBytes hh hm, hc₁]
      dsimp only
      omega
    · rw [length_sourceBytes hh hm, emit_emitted, length_zeros]
      rw [he, hm.1, hs₁, advance, emit_emitted]
      omega
    · rw [emit_output]
      rw [ho, hs₁, advance, emit_output, sourceBytes, memberBytes, headerBytes_eq hh]
      simp only [append_assoc]
  · intro hm
    by_cases hlen : (readSourceChunks f.path).flatten.length ≤ f.bytes
    · obtain ⟨t, ht, -⟩ := hfits hlen
      rw [ht, ok_bind]
      dsimp only
      rw [nil_append]
      by_cases he : (readSourceChunks f.path).flatten.length = f.bytes
      · have hd : (sha256Hex (readSourceChunks f.path).flatten == f.sha256) = false :=
          beq_false_of_ne fun hsha => hm ⟨he, hsha⟩
        rw [he, hd]
        simp only [BEq.rfl, require_true, ok_bind]
        exact ⟨_, rfl⟩
      · rw [beq_false_of_ne he]
        exact ⟨_, rfl⟩
    · obtain ⟨message, he⟩ := hlong (by omega)
      rw [he]
      exact ⟨message, rfl⟩

/-- The sources of a unit whose members lie from the cursor on. -/
theorem renderSources_renders (readSourceChunks : Text → List Bytes) {files : List ArchiveFile}
    {laid : List PackMemberPlan} (h : Laid unit start files laid stop)
    (hl : ∀ m ∈ laid, lookupMember members m.path = .ok m) (hs : s.absoluteCursor = start) :
    Renders (∀ f ∈ files, Matches readSourceChunks f) s
      (renderSources members unit readSourceChunks files s)
      (files.flatMap (sourceBytes readSourceChunks)) := by
  induction h generalizing s with
  | nil start => exact .nil (by simp)
  | @cons start stop f header files laid hh hr ih =>
    subst hs
    obtain ⟨hf, hrest⟩ := forall_mem_cons.1 hl
    rw [renderSources, flatMap_cons]
    refine ((renderSource_renders readSourceChunks hh hf).bind fun hm t ht => ?_).congr
      forall_mem_cons.symm
    refine ih hrest ?_
    rw [ht, length_sourceBytes hh hm]
    omega

/-- A unit's padding member. -/
theorem renderPadding_renders {volumeId : Text} (h : PaddingLaid volumeId unit start padding stop)
    (hs : s.absoluteCursor = start) :
    Renders True s (renderPadding padding s)
      (padding.toList.flatMap PackPaddingPlan.memberBytes) := by
  cases h with
  | none => exact .nil trivial
  | @some _ payloadBytes header _ hh hstop =>
    subst hs
    rw [renderPadding, BEq.rfl, require_true, ok_bind, hh, ok_bind]
    dsimp only
    have hc : ((((s.emit header).emit (zeros payloadBytes)).emit
        (zeros (tarPadding payloadBytes))).advance
          (header.length + payloadBytes + tarPadding payloadBytes)).absoluteCursor = stop := by
      simp only [advance, emit_absoluteCursor]
      omega
    rw [hc, BEq.rfl, require_true, ok_bind]
    refine .emit_advance trivial ?_ ?_ ?_ ?_ <;>
      simp only [emit_absoluteCursor, emit_emitted, emit_output, Option.toList_some, flatMap_cons,
        flatMap_nil, append_nil, PackPaddingPlan.memberBytes, memberBytes, headerBytes_eq hh,
        length_append, append_assoc, length_zeros] <;> omega

/-- The index member. -/
theorem renderIndex_renders {indexBytes : Bytes} (includesIndex : Bool)
    (hh : tarHeader packIndexPath indexBytes.length = .ok header) (s : RenderState) :
    Renders True s (renderIndex includesIndex indexBytes s)
      (if includesIndex then memberBytes packIndexPath indexBytes.length indexBytes else []) := by
  cases includesIndex with
  | false => exact .nil trivial
  | true =>
    rw [renderIndex, if_pos rfl, if_pos rfl, hh, ok_bind]
    refine .emit_advance trivial ?_ ?_ ?_ ?_ <;>
      simp only [emit_absoluteCursor, emit_emitted, emit_output,
        memberBytes, headerBytes_eq hh, length_append, append_assoc, length_zeros] <;>
      omega

/-- The end markers. -/
theorem renderEndMarkers_renders (includesEndMarkers : Bool) (s : RenderState) :
    Renders True s (.ok (renderEndMarkers includesEndMarkers s))
      (if includesEndMarkers then zeros (tarBlockSize * 2) else []) := by
  cases includesEndMarkers with
  | false => exact .nil trivial
  | true =>
    rw [renderEndMarkers, if_pos rfl, if_pos rfl]
    exact .emit_advance trivial (emit_absoluteCursor _ _)
      (emit_emitted _ _) (emit_output _ _) (length_zeros _).symm

/-! ## A unit of a plan -/

/-- The dictionary of members finds every member when no two share a path. -/
theorem lookupMember_mem (hp : (members.map PackMemberPlan.path).Nodup) {m : PackMemberPlan}
    (hm : m ∈ members) : lookupMember members m.path = .ok m := by
  rw [lookupMember]
  cases hf : members.reverse.find? (·.path == m.path) with
  | none =>
    have hnone := find?_eq_none.1 hf m (mem_reverse.2 hm)
    simp at hnone
  | some m' =>
    have hmem := mem_reverse.1 (mem_of_find?_eq_some hf)
    have hpath : m'.path = m.path := by simpa using find?_some hf
    rw [inj_on_of_nodup_map hp hmem hm hpath]

/-- The members of a unit lie from its start on, followed by its padding, the index and the end
markers if it has them. -/
def UnitLaid (plan : PackVolumePlan) (u : PackUploadUnitPlan) : Prop :=
  ∃ members middle stop, Laid u.unit u.plaintextStart u.sources members middle ∧
    (∀ m ∈ members, m ∈ plan.members) ∧ PaddingLaid plan.volumeId u.unit middle u.padding stop ∧
    u.plaintextEnd = stop +
      (if u.includesIndex then memberBytes packIndexPath plan.indexBytes.length plan.indexBytes
        else []).length +
      (if u.includesEndMarkers then zeros (tarBlockSize * 2) else []).length

theorem Laid.length_flatMap {files : List ArchiveFile} (h : Laid unit start files members stop)
    (hm : ∀ f ∈ files, Matches readSourceChunks f) :
    start + (files.flatMap (sourceBytes readSourceChunks)).length = stop := by
  induction h with
  | nil => rfl
  | cons hh _ ih =>
    obtain ⟨hf, hrest⟩ := forall_mem_cons.1 hm
    rw [flatMap_cons, length_append, length_sourceBytes hh hf, ← ih hrest]
    omega

theorem PaddingLaid.length_flatMap {volumeId : Text}
    (h : PaddingLaid volumeId unit start padding stop) :
    start + (padding.toList.flatMap PackPaddingPlan.memberBytes).length = stop := by
  cases h with
  | none => rfl
  | some _ hh hs =>
    rw [hs]
    simp only [Option.toList_some, flatMap_cons, flatMap_nil, append_nil,
      PackPaddingPlan.memberBytes, memberBytes, headerBytes_eq hh, length_append, length_zeros]
    omega

/-- A unit renders to exactly its bytes when its sources match, and is refused otherwise. -/
theorem iterRenderPackUploadUnit_spec {plan : PackVolumePlan} {unitNumber : Nat} {indexHeader : Bytes} (readSourceChunks : Text → List Bytes)
    (hp : (plan.members.map PackMemberPlan.path).Nodup)
    (hi : tarHeader packIndexPath plan.indexBytes.length = .ok indexHeader)
    (hn : plan.units[unitNumber]? = some u) (hu : u.unit = unitNumber) (hl : UnitLaid plan u) :
    ((∀ f ∈ u.sources, Matches readSourceChunks f) →
      u.plaintextStart + (unitBytes plan readSourceChunks u).length = u.plaintextEnd ∧
      ∃ chunks, iterRenderPackUploadUnit plan unitNumber readSourceChunks = .ok chunks ∧
        chunks.flatten = unitBytes plan readSourceChunks u) ∧
    (¬ (∀ f ∈ u.sources, Matches readSourceChunks f) →
      Refuses (iterRenderPackUploadUnit plan unitNumber readSourceChunks)) := by
  obtain ⟨members, middle, stop, hlaid, hsub, hpad, hend⟩ := hl
  have hrender : Renders (∀ f ∈ u.sources, Matches readSourceChunks f) ⟨u.plaintextStart, 0, []⟩
      (do
        let s ← renderSources plan.members u.unit readSourceChunks u.sources
          ⟨u.plaintextStart, 0, []⟩
        let s ← renderPadding u.padding s
        let s ← renderIndex u.includesIndex plan.indexBytes s
        .ok (renderEndMarkers u.includesEndMarkers s))
      (unitBytes plan readSourceChunks u) := by
    have hs := renderSources_renders (s := ⟨u.plaintextStart, 0, []⟩) readSourceChunks hlaid
      (fun m hm => lookupMember_mem hp (hsub m hm)) rfl
    rw [unitBytes, append_assoc, append_assoc]
    refine (hs.bind fun hm t ht => (renderPadding_renders hpad ?_).bind fun _ t _ =>
      (renderIndex_renders _ hi t).bind fun _ t _ => renderEndMarkers_renders _ t).congr (by simp)
    rw [ht, ← hlaid.length_flatMap hm]
  have hrequire : requireUnit plan unitNumber = .ok u := by
    rw [requireUnit, hn]
    dsimp only
    rw [hu, BEq.rfl, require_true, ok_bind]
    rfl
  have hsplit : iterRenderPackUploadUnit plan unitNumber readSourceChunks = (do
        let s ← renderSources plan.members u.unit readSourceChunks u.sources
          ⟨u.plaintextStart, 0, []⟩
        let s ← renderPadding u.padding s
        let s ← renderIndex u.includesIndex plan.indexBytes s
        .ok (renderEndMarkers u.includesEndMarkers s)) >>= fun s => do
        require (s.absoluteCursor == u.plaintextEnd && s.emitted == u.plaintextBytes)
          (.runtimeError "rendered pack upload unit length does not match its plan")
        return s.output := by
    rw [iterRenderPackUploadUnit, hrequire, ok_bind]
    simp only [bind_assoc, ok_bind]
  rw [hsplit]
  refine ⟨fun hm => ?_, fun hm => ?_⟩
  · have hlen : u.plaintextStart + (unitBytes plan readSourceChunks u).length = u.plaintextEnd := by
      simp only [unitBytes, length_append]
      have h₁ := hlaid.length_flatMap hm
      have h₂ := hpad.length_flatMap
      omega
    obtain ⟨t, ht, hc, he, ho⟩ := hrender.returns hm
    have hcount : (t.absoluteCursor == u.plaintextEnd && t.emitted == u.plaintextBytes) = true := by
      rw [hc, he, PackUploadUnitPlan.plaintextBytes]
      simp only [Bool.and_eq_true, beq_iff_eq]
      omega
    refine ⟨hlen, t.output, ?_, ho⟩
    rw [ht, ok_bind, hcount, require_true, ok_bind]
    rfl
  · obtain ⟨message, he⟩ := hrender.refuses hm
    rw [he]
    exact ⟨message, rfl⟩

/-! ## The units of a plan -/

namespace UnitsLaid

variable {volumeId : Text} {index start last stop : Nat} {units : List PackUploadUnitPlan}
  {members : List PackMemberPlan}

/-- Each unit is laid out, and numbered by its position. -/
theorem getElem?_laid (h : UnitsLaid volumeId index start units members last stop) {n : Nat} (hn : units[n]? = some u) :
    u.unit = index + n ∧ u.includesIndex = false ∧ u.includesEndMarkers = false ∧
      ∃ ms middle, Laid u.unit u.plaintextStart u.sources ms middle ∧
        (∀ m ∈ ms, m ∈ members) ∧ PaddingLaid volumeId u.unit middle u.padding u.plaintextEnd := by
  induction h generalizing n with
  | nil => simp at hn
  | @cons index _ middle _ _ _ _ _ _ members rest _ hl hp _ ih =>
    cases n with
    | zero =>
      obtain rfl : _ = u := Option.some.inj hn
      exact ⟨rfl, rfl, rfl, members, middle, hl, fun m hm => mem_append_left _ hm, hp⟩
    | succ n =>
      rw [getElem?_cons_succ] at hn
      obtain ⟨hu, hi, he, ms, middle, hl, hsub, hp⟩ := ih hn
      exact ⟨by omega, hi, he, ms, middle, hl, fun m hm => mem_append_right _ (hsub m hm), hp⟩

theorem unit_bounds (h : UnitsLaid volumeId index start units members last stop) :
    index ≤ last ∧ ∀ m ∈ members, index ≤ m.unit ∧ m.unit < last := by
  induction h with
  | nil => simp
  | cons _ hl _ _ ih =>
    refine ⟨by omega, fun m hm => ?_⟩
    rcases mem_append.1 hm with hm | hm
    · rw [hl.unit_eq m hm]
      omega
    · obtain ⟨h₁, h₂⟩ := ih.2 m hm
      omega

end UnitsLaid

namespace PlanLaid

variable {nfc : Text → Text} {files : List ArchiveFile} {maxMemberBytes : Int}
  {plan : PackVolumePlan}

/-- Every unit of the plan is laid out, and numbered by its position. -/
theorem unitLaid (h : PlanLaid nfc files maxMemberBytes plan) {n : Nat}
    (hn : plan.units[n]? = some u) : u.unit = n ∧ UnitLaid plan u := by
  obtain ⟨units, done, current, sources, index, start, cursor, indexHeader, hu, hm, hunits, hlaid,
    -, hindex, hbytes⟩ := h.units
  rw [hu] at hn
  have hlast := hunits.last_eq
  rw [Nat.zero_add] at hlast
  rcases Nat.lt_trichotomy n units.length with hlt | heq | hgt
  · rw [getElem?_append_left hlt] at hn
    obtain ⟨hunit, hi, he, ms, middle, hl, hsub, hp⟩ := hunits.getElem?_laid hn
    refine ⟨by omega, ms, middle, u.plaintextEnd, hl, fun m hm' => ?_, hp, ?_⟩
    · rw [hm]
      exact mem_append_left _ (hsub m hm')
    · rw [hi, he]
      rfl
  · rw [heq, getElem?_concat_length] at hn
    obtain rfl := Option.some.inj hn
    refine ⟨by dsimp only; omega, current, cursor, cursor, hlaid, fun m hm' => ?_, .none _, ?_⟩
    · rw [hm]
      exact mem_append_right _ hm'
    · simp only [if_true, memberBytes, headerBytes_eq hindex, length_append, length_zeros, hbytes]
      omega
  · rw [getElem?_eq_none (by simp; omega)] at hn
    cases hn

end PlanLaid

end Riverhog.Pack
