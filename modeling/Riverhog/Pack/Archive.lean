import Riverhog.Pack.RenderUnits

/-!
# Rendered packs are archives

The concatenation of the rendered units is an archive: the reader of the archive
format returns the planned members at the planned offsets, the planned padding
members, and the index last. `PlanLaid.pieces` says what the bytes are, for any
reader of archives; `renderPack_read` reads them with the reader of the format.
-/

namespace Riverhog.Pack

open Core Protocol List

/-! ## Pieces -/

/-- A member as the renderer writes it. -/
structure Piece where
  path : Text
  content : Bytes
  header : Bytes
  header_eq : tarHeader path content.length = .ok header

/-- A member of a pack, with the places of its first header block and of its data. -/
structure PlacedMember where
  path : Text
  headerOffset : Nat
  dataOffset : Nat
  content : Bytes
  deriving DecidableEq

/-- The member as an entry of the archive. -/
def PlacedMember.entry (m : PlacedMember) : Tar.Entry :=
  ⟨m.headerOffset, m.dataOffset, encodeUtf8 m.path, m.content.length, m.content⟩

/-- The bytes of the member. -/
def Piece.bytes (p : Piece) : Bytes := p.header ++ p.content ++ zeros (tarPadding p.content.length)

theorem Piece.length_bytes (p : Piece) :
    p.bytes.length = p.header.length + p.content.length + tarPadding p.content.length := by
  rw [bytes, length_append, length_append, length_zeros]

/-- The bytes of consecutive pieces. -/
def piecesBytes (pieces : List Piece) : Bytes := pieces.flatMap Piece.bytes

/-- The members that consecutive pieces are, the first at `offset`. -/
def piecesPlaced : Nat → List Piece → List PlacedMember
  | _, [] => []
  | offset, p :: pieces =>
    ⟨p.path, offset, offset + p.header.length, p.content⟩ ::
      piecesPlaced (offset + p.bytes.length) pieces

theorem piecesBytes_cons (p : Piece) (ps : List Piece) :
    piecesBytes (p :: ps) = p.bytes ++ piecesBytes ps := flatMap_cons

theorem piecesBytes_append (ps qs : List Piece) :
    piecesBytes (ps ++ qs) = piecesBytes ps ++ piecesBytes qs := flatMap_append

theorem piecesPlaced_append (offset : Nat) (ps qs : List Piece) :
    piecesPlaced offset (ps ++ qs) =
      piecesPlaced offset ps ++ piecesPlaced (offset + (piecesBytes ps).length) qs := by
  induction ps generalizing offset with
  | nil => rfl
  | cons p ps ih =>
    rw [cons_append, piecesPlaced, ih, piecesPlaced, cons_append, piecesBytes_cons,
      length_append, Nat.add_assoc]

theorem map_path_piecesPlaced (offset : Nat) (ps : List Piece) :
    (piecesPlaced offset ps).map PlacedMember.path = ps.map Piece.path := by
  induction ps generalizing offset with
  | nil => rfl
  | cons p ps ih => rw [piecesPlaced, map_cons, ih, map_cons]

/-- The data of a member lies where its entry says. -/
theorem slice_piecesPlaced (before : Bytes) (ps : List Piece) (rest : Bytes) :
    ∀ m ∈ piecesPlaced before.length ps,
      slice (before ++ (piecesBytes ps ++ rest)) m.dataOffset m.content.length = m.content := by
  induction ps generalizing before with
  | nil => exact forall_mem_nil _
  | cons p ps ih =>
    have hbytes : before ++ (piecesBytes (p :: ps) ++ rest) =
        (before ++ p.bytes) ++ (piecesBytes ps ++ rest) := by
      simp [piecesBytes_cons]
    rw [piecesPlaced, forall_mem_cons]
    constructor
    · have hs := slice_append_middle (before ++ p.header) p.content
        (zeros (tarPadding p.content.length) ++ (piecesBytes ps ++ rest))
      rw [length_append] at hs
      rw [hbytes, Piece.bytes]
      simpa only [append_assoc] using hs
    · rw [hbytes, ← length_append]
      exact ih (before ++ p.bytes)

/-- An archive of pieces is read back. -/
theorem read_pieces {ps : List Piece} (hw : ∀ p ∈ ps, Writable p.path) :
    Tar.read (piecesBytes ps ++ zeros (tarBlockSize * 2)) =
      some ((piecesPlaced 0 ps).map PlacedMember.entry) := by
  obtain ⟨members, hb, he⟩ : ∃ members : List Tar.Member,
      members.flatMap Tar.Member.bytes = piecesBytes ps ∧ ∀ offset, Tar.entriesFrom offset members =
          (piecesPlaced offset ps).map PlacedMember.entry := by
    induction ps with
    | nil => exact ⟨[], rfl, fun _ => rfl⟩
    | cons p ps ih =>
      obtain ⟨hp, hrest⟩ := forall_mem_cons.1 hw
      obtain ⟨members, hb, he⟩ := ih hrest
      refine ⟨⟨p.bytes, p.header.length, encodeUtf8 p.path, p.content,
        tarHeader_encodes hp p.header_eq⟩ :: members, ?_, fun offset => ?_⟩
      · rw [flatMap_cons, hb]
        rfl
      · rw [Tar.entriesFrom, he, piecesPlaced, map_cons]
        rfl
  have h := Tar.read_flatMap members
  rwa [hb, he] at h

/-! ## Planned members -/

/-- A planned member with the content that its source has. -/
def PackMemberPlan.placed (readSourceChunks : Text → List Bytes) (m : PackMemberPlan) :
    PlacedMember :=
  ⟨m.path, m.headerOffset, m.dataOffset, (readSourceChunks m.path).flatten⟩

/-- A planned padding member: its data is all zeros. -/
def PackPaddingPlan.placed (p : PackPaddingPlan) : PlacedMember :=
  ⟨p.path, p.headerOffset, p.endOffset - tarPadding p.payloadBytes - p.payloadBytes,
    zeros p.payloadBytes⟩

/-- The members of a unit, in order. -/
def unitMembers (members : List PackMemberPlan) (u : PackUploadUnitPlan) : List PackMemberPlan :=
  members.filter (·.unit == u.unit)

/-- What a unit adds to the archive: its members and its padding. -/
def unitPlaced (members : List PackMemberPlan) (readSourceChunks : Text → List Bytes)
    (u : PackUploadUnitPlan) : List PlacedMember :=
  (unitMembers members u).map (PackMemberPlan.placed readSourceChunks) ++
    u.padding.toList.map PackPaddingPlan.placed

section Pieces

variable {readSourceChunks : Text → List Bytes}

variable {after before members : List PackMemberPlan} {start stop unit : Nat} {volumeId : Text}

theorem Laid.pieces {files : List ArchiveFile} (h : Laid unit start files members stop)
    (hm : ∀ f ∈ files, Matches readSourceChunks f) :
    ∃ ps, piecesBytes ps = files.flatMap (sourceBytes readSourceChunks) ∧
      piecesPlaced start ps = members.map (PackMemberPlan.placed readSourceChunks) := by
  induction h with
  | nil => exact ⟨[], rfl, rfl⟩
  | @cons start stop f header files members hh _ ih =>
    obtain ⟨hmf, hmr⟩ := forall_mem_cons.1 hm
    obtain ⟨ps, hb, he⟩ := ih hmr
    have hheader : tarHeader f.path (readSourceChunks f.path).flatten.length = .ok header := by
      rw [hmf.1, hh]
    let p : Piece := ⟨f.path, (readSourceChunks f.path).flatten, header, hheader⟩
    have hp : p.bytes = sourceBytes readSourceChunks f := by
      rw [sourceBytes, memberBytes, headerBytes_eq hh, Piece.bytes]
      rw [hmf.1]
    refine ⟨p :: ps, ?_, ?_⟩
    · rw [flatMap_cons, ← hb, ← hp]
      rfl
    · rw [piecesPlaced, hp, length_sourceBytes hh hmf, map_cons, ← he, ← Nat.add_assoc,
        ← Nat.add_assoc]
      rfl

theorem PaddingLaid.pieces {padding : Option PackPaddingPlan}
    (h : PaddingLaid volumeId unit start padding stop) :
    ∃ ps, piecesBytes ps = padding.toList.flatMap PackPaddingPlan.memberBytes ∧
      piecesPlaced start ps = padding.toList.map PackPaddingPlan.placed := by
  cases h with
  | none => exact ⟨[], rfl, rfl⟩
  | @some _ payloadBytes header _ hh hs =>
    have hheader : tarHeader (paddingPath volumeId unit) (zeros payloadBytes).length =
        .ok header := by
      rw [length_zeros, hh]
    refine ⟨[⟨paddingPath volumeId unit, zeros payloadBytes, header, hheader⟩], ?_, ?_⟩
    · simp [piecesBytes, Piece.bytes, PackPaddingPlan.memberBytes, memberBytes, headerBytes_eq hh]
    · rw [piecesPlaced, Option.toList_some, map_singleton, PackPaddingPlan.placed, hs]
      rw [Nat.add_sub_cancel, Nat.add_sub_cancel]
      rfl

/-- A unit's members are those between the members of the units before and after it. -/
theorem unitMembers_append (u : PackUploadUnitPlan) (hb : ∀ m ∈ before, m.unit < u.unit)
    (hm : ∀ m ∈ members, m.unit = u.unit) (ha : ∀ m ∈ after, u.unit < m.unit) :
    unitMembers (before ++ members ++ after) u = members := by
  rw [unitMembers, filter_append, filter_append,
    filter_eq_nil_iff.2 fun m h => by simpa using (hb m h).ne,
    filter_eq_self.2 fun m h => by simpa using hm m h,
    filter_eq_nil_iff.2 fun m h => by simpa using (ha m h).ne', nil_append,
    append_nil]

theorem UnitsLaid.pieces (plan : PackVolumePlan) {index last : Nat}
    {units : List PackUploadUnitPlan} (h : UnitsLaid volumeId index start units members last stop)
    (hm : ∀ m ∈ members, Matches readSourceChunks m.file) (hb : ∀ m ∈ before, m.unit < index)
    (ha : ∀ m ∈ after, last ≤ m.unit) :
    ∃ ps, piecesBytes ps = units.flatMap (unitBytes plan readSourceChunks) ∧ piecesPlaced start ps =
        units.flatMap (unitPlaced (before ++ members ++ after) readSourceChunks) ∧
      start + (piecesBytes ps).length = stop ∧
      units.flatMap (unitMembers (before ++ members ++ after)) = members := by
  induction h generalizing before with
  | nil => exact ⟨[], rfl, rfl, rfl, rfl⟩
  | @cons index start middle stop last final sources padding units members rest _ hl hp hr ih =>
    obtain ⟨hml, hmr⟩ := forall_mem_append.1 hm
    have hmf : ∀ f ∈ sources, Matches readSourceChunks f := by
      rw [← hl.map_file, forall_mem_map]
      exact hml
    obtain ⟨ps, hpb, hpe⟩ := hl.pieces hmf
    obtain ⟨qs, hqb, hqe⟩ := hp.pieces
    have hbounds := hr.unit_bounds
    have hbefore : ∀ m ∈ before ++ members, m.unit < index + 1 := fun m hm => by
      rcases mem_append.1 hm with hm | hm
      · exact (hb m hm).trans (Nat.lt_succ_self _)
      · rw [hl.unit_eq m hm]
        exact Nat.lt_succ_self _
    obtain ⟨rs, hrb, hre, hrl, hrm⟩ := ih hmr hbefore ha
    have hmiddle : start + (piecesBytes ps).length = middle := by
      rw [hpb, hl.length_flatMap hmf]
    have hstop : middle + (piecesBytes qs).length = stop := by
      rw [hqb, hp.length_flatMap]
    have hunit : unitMembers (before ++ (members ++ rest) ++ after)
        ⟨index, start, stop, sources, padding, false, false⟩ = members := by
      rw [← append_assoc, append_assoc]
      refine unitMembers_append _ hb hl.unit_eq fun m hm => ?_
      rcases mem_append.1 hm with hm | hm
      · exact (hbounds.2 m hm).1
      · exact Nat.lt_of_lt_of_le hbounds.1 (ha m hm)
    rw [← append_assoc] at hunit ⊢
    refine ⟨ps ++ qs ++ rs, ?_, ?_, ?_, ?_⟩
    · rw [piecesBytes_append, piecesBytes_append, hpb, hqb, hrb, flatMap_cons]
      simp [unitBytes]
    · rw [piecesPlaced_append, piecesPlaced_append, piecesBytes_append, length_append,
        ← Nat.add_assoc, hmiddle, hstop, hpe, hqe, hre, flatMap_cons, unitPlaced, hunit]
    · rw [piecesBytes_append, piecesBytes_append, length_append, length_append]
      omega
    · rw [flatMap_cons, hunit, hrm]

end Pieces

/-! ## Whole packs -/

/-- Rendering every unit renders the bytes of every unit. -/
theorem renderUnitsFrom_spec {plan : PackVolumePlan} {readSourceChunks : Text → List Bytes}
    (h : ∀ n u, plan.units[n]? = some u →
      ∃ chunks, iterRenderPackUploadUnit plan n readSourceChunks = .ok chunks ∧
        chunks.flatten = unitBytes plan readSourceChunks u)
    (units : List PackUploadUnitPlan) (n : Nat) (hu : plan.units.drop n = units) :
    ∃ chunks, renderUnitsFrom plan readSourceChunks units.length n = .ok chunks ∧
      chunks.flatten = units.flatMap (unitBytes plan readSourceChunks) := by
  induction units generalizing n with
  | nil => exact ⟨[], rfl, rfl⟩
  | cons u units ih =>
    have hget : plan.units[n]? = some u := by
      rw [← Nat.add_zero n, ← getElem?_drop, hu]
      rfl
    obtain ⟨chunks, hc, hf⟩ := h n u hget
    obtain ⟨rest, hr, hrf⟩ := ih (n + 1) (by rw [← drop_drop, hu]; rfl)
    refine ⟨chunks ++ rest, ?_, ?_⟩
    · rw [length_cons, renderUnitsFrom, hc, ok_bind, hr]
      rfl
    · rw [flatten_append, hf, hrf, flatMap_cons]

theorem renderPack_spec {plan : PackVolumePlan} {readSourceChunks : Text → List Bytes}
    (h : ∀ n u, plan.units[n]? = some u →
      ∃ chunks, iterRenderPackUploadUnit plan n readSourceChunks = .ok chunks ∧
        chunks.flatten = unitBytes plan readSourceChunks u) :
    ∃ chunks, renderPack plan readSourceChunks = .ok chunks ∧
      chunks.flatten = plan.units.flatMap (unitBytes plan readSourceChunks) :=
  renderUnitsFrom_spec h plan.units 0 rfl

/-- Every source of the plan has the planned size and digest. -/
def SourcesMatch (plan : PackVolumePlan) (readSourceChunks : Text → List Bytes) : Prop :=
  ∀ m ∈ plan.members, (readSourceChunks m.path).flatten.length = m.bytes ∧
    sha256Hex (readSourceChunks m.path).flatten = m.sha256

namespace PlanLaid

variable {nfc : Text → Text} {files : List ArchiveFile} {maxMemberBytes : Int}
  {plan : PackVolumePlan} {readSourceChunks : Text → List Bytes}

/-- Rendering a plan in order renders the bytes of its units. -/
theorem renderPack_ok (h : PlanLaid nfc files maxMemberBytes plan)
    (hm : SourcesMatch plan readSourceChunks) :
    ∃ chunks, renderPack plan readSourceChunks = .ok chunks ∧
      chunks.flatten = plan.units.flatMap (unitBytes plan readSourceChunks) := by
  obtain ⟨-, -, -, -, -, -, -, indexHeader, -, -, -, -, -, hindex, -⟩ := h.units
  refine renderPack_spec fun n u hu => ?_
  obtain ⟨hn, hl⟩ := h.unitLaid hu
  refine ((iterRenderPackUploadUnit_spec readSourceChunks h.nodup_path hindex hu hn hl).1 ?_).2
  obtain ⟨members, middle, stop, hlaid, hsub, -⟩ := hl
  rw [← hlaid.map_file, forall_mem_map]
  exact fun m hm' => hm m (hsub m hm')

/-- The bytes of all units are members, the index last, and two zero blocks. -/
theorem pieces (h : PlanLaid nfc files maxMemberBytes plan)
    (hm : SourcesMatch plan readSourceChunks) :
    ∃ ps index, plan.units.flatMap (unitBytes plan readSourceChunks) =
        piecesBytes ps ++ zeros (tarBlockSize * 2) ∧
      piecesPlaced 0 ps = plan.units.flatMap (unitPlaced plan.members readSourceChunks) ++ [index] ∧
      index.path = packIndexPath ∧ index.content = plan.indexBytes ∧
      (plan.units.flatMap (unitBytes plan readSourceChunks)).length = plan.plaintextBytes ∧
      plan.units.flatMap (unitMembers plan.members) = plan.members := by
  obtain ⟨units, done, current, sources, index, start, cursor, indexHeader, hu, hmem, hunits, hlaid,
    -, hindex, hbytes⟩ := h.units
  rw [SourcesMatch, hmem] at hm
  obtain ⟨hmd, hmc⟩ := forall_mem_append.1 hm
  obtain ⟨ps, hpb, hpe, hpl, hpm⟩ := hunits.pieces plan hmd (forall_mem_nil _)
    fun m hm => (hlaid.unit_eq m hm).ge
  have hmf : ∀ f ∈ sources, Matches readSourceChunks f := by
    rw [← hlaid.map_file, forall_mem_map]
    exact hmc
  obtain ⟨qs, hqb, hqe⟩ := hlaid.pieces hmf
  have hcursor : start + (piecesBytes qs).length = cursor := by
    rw [hqb, hlaid.length_flatMap hmf]
  have hlast : unitMembers (done ++ current)
      ⟨index, start, plan.plaintextBytes, sources, none, true, true⟩ = current := by
    have hb := hunits.unit_bounds
    have hall := unitMembers_append ⟨index, start, plan.plaintextBytes, sources, none, true, true⟩
      (fun m hm => (hb.2 m hm).2) hlaid.unit_eq (forall_mem_nil _)
    rwa [append_nil] at hall
  let p : Piece := ⟨packIndexPath, plan.indexBytes, indexHeader, hindex⟩
  have hp : p.bytes = memberBytes packIndexPath plan.indexBytes.length plan.indexBytes := by
    rw [memberBytes, headerBytes_eq hindex]
    rfl
  rw [nil_append] at hpe hpm
  refine ⟨ps ++ qs ++ [p], ⟨packIndexPath, cursor, cursor + indexHeader.length, plan.indexBytes⟩,
    ?_, ?_, rfl, rfl, ?_, ?_⟩
  · rw [hu, flatMap_append, ← hpb, flatMap_singleton, unitBytes, ← hqb, if_pos rfl,
      if_pos rfl, ← hp, piecesBytes_append, piecesBytes_append]
    simp [piecesBytes]
  · rw [piecesPlaced_append, piecesPlaced_append, piecesBytes_append, length_append,
      ← Nat.add_assoc, Nat.zero_add, ← Nat.zero_add (piecesBytes ps).length, hpl, hcursor,
      hpe, hqe, hu, hmem, flatMap_append, flatMap_singleton, unitPlaced, hlast]
    simp [piecesPlaced, p]
  · rw [hu, flatMap_append, ← hpb, flatMap_singleton, unitBytes, ← hqb, if_pos rfl,
      if_pos rfl, ← hp]
    simp only [length_append, Piece.length_bytes, length_zeros, Option.toList_none,
      flatMap_nil, length_nil, hbytes]
    dsimp only [p]
    omega
  · rw [hu, hmem, flatMap_append, hpm, flatMap_singleton, hlast]

end PlanLaid

/-- A padding member's path can be written. -/
theorem writable_paddingPath (sequence unit : Nat) :
    Writable (paddingPath ("pack-" ++ zeroPadded 16 64 sequence) unit) := by
  have hd : ∀ {base width n : Nat}, 1 < base → base ≤ 16 → '\x00' ∉ zeroPadded base width n := by
    intro base width n hb hb' h
    obtain ⟨d, hlt, he⟩ := mem_zeroPadded hb h
    have hall : ∀ d < 16, '\x00' ≠ Nat.digitChar d := by decide
    exact hall d (by omega) he
  have hpre : '\x00' ∉ packPaddingPrefix := by decide
  refine ⟨⟨'.', _, rfl, by decide⟩, ?_⟩
  simp [paddingPath, hpre, hd]

namespace PlanLaid

variable {nfc : Text → Text} {files : List ArchiveFile} {maxMemberBytes : Int}
  {plan : PackVolumePlan} {readSourceChunks : Text → List Bytes}

variable (h : PlanLaid nfc files maxMemberBytes plan)
include h

/-- Every unit has a member of its own. -/
theorem length_units_le :
    plan.units.length ≤ plan.members.length := by
  obtain ⟨units, done, current, sources, index, start, cursor, indexHeader, hu, hmem, hunits, hlaid,
    hne, -⟩ := h.units
  have hcurrent : 0 < current.length := by
    rw [hlaid.length_eq]
    exact length_pos_iff.2 hne
  have hdone := hunits.length_le
  rw [hu, hmem, length_append, length_append, length_singleton]
  omega

variable {placed : PlacedMember}

/-- What the units place is a member or a padding member. -/
theorem placed_cases (hp : placed ∈ plan.units.flatMap (unitPlaced plan.members readSourceChunks)) :
    (∃ m ∈ plan.members, placed = m.placed readSourceChunks) ∨
      ∃ u ∈ plan.units, ∃ payloadBytes < chunkSize, u.unit < archivePackFilesMax ∧
        placed.path = paddingPath plan.volumeId u.unit ∧ placed.content = zeros payloadBytes := by
  obtain ⟨u, hu, hp⟩ := mem_flatMap.1 hp
  rcases mem_append.1 hp with hp | hp
  · obtain ⟨m, hm, rfl⟩ := mem_map.1 hp
    exact .inl ⟨m, mem_of_mem_filter hm, rfl⟩
  · obtain ⟨n, hn⟩ := mem_iff_getElem?.1 hu
    obtain ⟨hunit, members, middle, stop, -, -, hpad, -⟩ := h.unitLaid hn
    have hbound : n < plan.units.length := (List.getElem?_eq_some_iff.1 hn).1
    have hunits := h.length_units_le
    have hcount := h.count
    obtain ⟨padding, hpadding, rfl⟩ := mem_map.1 hp
    rw [Option.mem_toList] at hpadding
    rw [hpadding] at hpad
    cases hpad with
    | some hc hh hs => exact .inr ⟨u, hu, _, hc, by omega, rfl, rfl⟩

/-- The path of every piece can be written when no member's path holds a NUL. -/
theorem writable_placed (hn : ∀ m ∈ plan.members, '\x00' ∉ m.path)
    (hp : placed ∈ plan.units.flatMap (unitPlaced plan.members readSourceChunks)) :
    Writable placed.path := by
  rcases h.placed_cases hp with ⟨m, hm, rfl⟩ | ⟨u, -, -, -, -, hpath, -⟩
  · obtain ⟨hfiles, -, -⟩ := normalizedFiles_spec h.normalized
    obtain ⟨f, -, hpath, -⟩ := hfiles m.file (mem_map_of_mem hm)
    have hparts := normalizeRelpath_spec hpath
    exact ⟨hparts.head_ne_slash, hn m hm⟩
  · rw [hpath, h.volumeId]
    exact writable_paddingPath _ _

end PlanLaid

/-- Rendering the units of a plan in order never raises anything but the `ValueError` of a source
that is not the planned one. When the sources are the planned ones, the result has exactly the
planned length and is an archive of the planned members, each at its planned offsets, with the
planned zero-filled padding members after the members of their unit and the index member last. -/
theorem renderPack_read {nfc : Text → Text} {files : List ArchiveFile}
    {sequence maxMemberBytes partPlaintextBytes : Int} {plan : PackVolumePlan}
    (h : planPackVolume nfc files sequence maxMemberBytes partPlaintextBytes = .ok plan)
    (hn : ∀ m ∈ plan.members, '\x00' ∉ m.path) (readSourceChunks : Text → List Bytes) :
    normalizedFiles nfc files maxMemberBytes = .ok (plan.members.map PackMemberPlan.file) ∧
    (∀ unitNumber e, iterRenderPackUploadUnit plan unitNumber readSourceChunks = .error e →
      ∃ message, e = .valueError message) ∧
    (SourcesMatch plan readSourceChunks →
      ∃ chunks index, renderPack plan readSourceChunks = .ok chunks ∧
        chunks.flatten.length = plan.plaintextBytes ∧
        Tar.read chunks.flatten = some ((plan.units.flatMap
          (unitPlaced plan.members readSourceChunks) ++ [index]).map PlacedMember.entry) ∧
        index.path = packIndexPath ∧ index.content = plan.indexBytes ∧
        plan.units.flatMap (unitMembers plan.members) = plan.members) := by
  have hlaid := planPackVolume_laid h
  obtain ⟨-, -, -, -, -, -, -, indexHeader, -, -, -, -, -, hindex, -⟩ := hlaid.units
  refine ⟨hlaid.normalized, fun n e he => ?_, fun hm => ?_⟩
  · cases hu : plan.units[n]? with
    | none =>
      rw [iterRenderPackUploadUnit, requireUnit, hu] at he
      exact ⟨_, (Except.error.inj he).symm⟩
    | some u =>
      obtain ⟨hunit, hl⟩ := hlaid.unitLaid hu
      have hspec := iterRenderPackUploadUnit_spec readSourceChunks hlaid.nodup_path hindex hu hunit hl
      by_cases hmu : ∀ f ∈ u.sources, Matches readSourceChunks f
      · obtain ⟨-, chunks, hc, -⟩ := hspec.1 hmu
        rw [hc] at he
        cases he
      · obtain ⟨message, hr⟩ := hspec.2 hmu
        rw [hr] at he
        exact ⟨message, (Except.error.inj he).symm⟩
  · obtain ⟨ps, index, hb, he, hip, hic, hlen, hunits⟩ := hlaid.pieces hm
    obtain ⟨chunks, hc, hf⟩ := hlaid.renderPack_ok hm
    have hw : ∀ p ∈ ps, Writable p.path := by
      have hplaced : ∀ m ∈ piecesPlaced 0 ps, Writable m.path := by
        rw [he, forall_mem_append, forall_mem_singleton, hip]
        exact ⟨fun m hm' => hlaid.writable_placed hn hm', ⟨_, _, rfl, by decide⟩, by decide⟩
      rwa [← forall_mem_map (f := PlacedMember.path), map_path_piecesPlaced,
        forall_mem_map] at hplaced
    refine ⟨chunks, index, hc, ?_, ?_, hip, hic, hunits⟩
    · rw [hf, hlen]
    · rw [hf, hb, read_pieces hw, he]

/-- Two files that fit one unit. -/
theorem renderPack_read_two_files :
    ∃ plan, planPackVolume id [⟨"b/c", 1, sha256Hex [104]⟩, ⟨"a", 0, sha256Hex []⟩]
        3 10 65536 = .ok plan ∧
      SourcesMatch plan (fun path => if path = "a" then [] else [[104]]) ∧
      ∃ chunks index,
        renderPack plan (fun path => if path = "a" then [] else [[104]]) = .ok chunks ∧
        Tar.read chunks.flatten = some ((plan.units.flatMap (unitPlaced plan.members
          fun path => if path = "a" then [] else [[104]]) ++ [index]).map
            PlacedMember.entry) := by
  obtain ⟨plan, hplan, hcheck⟩ := exists_ok_of_elim
    (x := planPackVolume id [⟨"b/c", 1, sha256Hex [104]⟩, ⟨"a", 0, sha256Hex []⟩] 3 10 65536)
    (p := fun plan => plan.members.all fun m => !m.path.contains '\x00' && decide
      ((if m.path = "a" then ([] : List Bytes) else [[104]]).flatten.length = m.bytes) &&
      sha256Hex (if m.path = "a" then ([] : List Bytes) else [[104]]).flatten == m.sha256)
    (by decide +kernel)
  have hall : ∀ m ∈ plan.members, ('\x00' ∉ m.path ∧
      (if m.path = "a" then ([] : List Bytes) else [[104]]).flatten.length = m.bytes) ∧
      sha256Hex (if m.path = "a" then ([] : List Bytes) else [[104]]).flatten = m.sha256 := by
    simpa using hcheck
  have hm : SourcesMatch plan fun path => if path = "a" then [] else [[104]] :=
    fun m h => ⟨(hall m h).1.2, (hall m h).2⟩
  obtain ⟨-, -, h⟩ := renderPack_read hplan (fun m h => (hall m h).1.1)
    fun path => if path = "a" then [] else [[104]]
  obtain ⟨chunks, index, hr, -, ht, -⟩ := h hm
  exact ⟨plan, hplan, hm, chunks, index, hr, ht⟩

end Riverhog.Pack
