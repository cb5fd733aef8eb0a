import Riverhog.Pack.Plan

/-!
# Rendering upload units

`iter_render_pack_upload_unit` of `riverhog_core.pack_volume`. The generator is a
computation that returns the chunks it yields; it counts the bytes it emits and
compares its cursor with the plan at every member, raising `RuntimeError` on any
difference and `ValueError` when a source is not the planned one.
-/

namespace Riverhog.Pack

open Core Protocol

/-- The local variables of the renderer and the chunks yielded so far. -/
structure RenderState where
  absoluteCursor : Nat
  emitted : Nat
  output : List Bytes
  deriving DecidableEq

namespace RenderState

/-- `emit`: an empty chunk is not yielded. -/
def emit (s : RenderState) (data : Bytes) : RenderState :=
  if data.isEmpty then s
  else { s with emitted := s.emitted + data.length, output := s.output ++ [data] }

def advance (s : RenderState) (count : Nat) : RenderState :=
  { s with absoluteCursor := s.absoluteCursor + count }

end RenderState

/-- `members[path]` of the dictionary that maps each path to its member. -/
def lookupMember (members : List PackMemberPlan) (path : Text) : Py PackMemberPlan :=
  match members.reverse.find? (·.path == path) with
  | some member => .ok member
  | none => .error .keyError

/-- The loop over the chunks of a source; returns the bytes counted and digested. -/
def emitSource (source : ArchiveFile) : List Bytes → Nat → Bytes → RenderState →
    Py (Nat × Bytes × RenderState)
  | [], byteCount, digested, s => .ok (byteCount, digested, s)
  | data :: rest, byteCount, digested, s =>
    if data.isEmpty then emitSource source rest byteCount digested s
    else do
      let byteCount := byteCount + data.length
      require (byteCount ≤ source.bytes) (.valueError
        ("pack source is longer than declared: " ++ String.ofList source.path))
      emitSource source rest byteCount (digested ++ data) (s.emit data)

/-- One turn of the loop over the sources of a unit. -/
def renderSource (members : List PackMemberPlan) (unit : Nat) (readSourceChunks : Text → List Bytes)
    (source : ArchiveFile) (s : RenderState) : Py RenderState := do
  let member ← lookupMember members source.path
  require (member.unit == unit && member.headerOffset == s.absoluteCursor)
    (.runtimeError "pack member offsets do not match their upload unit")
  let header ← tarHeader source.path source.bytes
  let s := (s.emit header).advance header.length
  require (s.absoluteCursor == member.dataOffset)
    (.runtimeError "pack member data offset is inconsistent")
  let (byteCount, digested, s) ← emitSource source (readSourceChunks source.path) 0 [] s
  require (byteCount == source.bytes) (.valueError
    ("pack source byte count mismatch: " ++ String.ofList source.path))
  require (sha256Hex digested == source.sha256) (.valueError
    ("pack source sha256 mismatch: " ++ String.ofList source.path))
  let s := s.advance source.bytes
  let padding := tarPadding source.bytes
  let s := (s.emit (zeros padding)).advance padding
  require (s.absoluteCursor == member.endOffset)
    (.runtimeError "pack member end offset is inconsistent")
  return s

/-- The loop over the sources of a unit. -/
def renderSources (members : List PackMemberPlan) (unit : Nat)
    (readSourceChunks : Text → List Bytes) : List ArchiveFile → RenderState → Py RenderState
  | [], s => .ok s
  | source :: rest, s => do
    let s ← renderSource members unit readSourceChunks source s
    renderSources members unit readSourceChunks rest s

/-- The padding member of a unit, if it has one. -/
def renderPadding (padding : Option PackPaddingPlan) (s : RenderState) : Py RenderState :=
  match padding with
  | none => .ok s
  | some plan => do
    require (plan.headerOffset == s.absoluteCursor)
      (.runtimeError "pack padding offset is inconsistent")
    let header ← tarHeader plan.path plan.payloadBytes
    let payloadPadding := tarPadding plan.payloadBytes
    let s := ((s.emit header).emit (zeros plan.payloadBytes)).emit (zeros payloadPadding)
    let s := s.advance (header.length + plan.payloadBytes + payloadPadding)
    require (s.absoluteCursor == plan.endOffset)
      (.runtimeError "pack padding end offset is inconsistent")
    return s

/-- The index member, if the unit includes it. -/
def renderIndex (includesIndex : Bool) (indexBytes : Bytes) (s : RenderState) : Py RenderState :=
  if includesIndex then do
    let header ← tarHeader packIndexPath indexBytes.length
    let indexPadding := tarPadding indexBytes.length
    let s := ((s.emit header).emit indexBytes).emit (zeros indexPadding)
    return s.advance (header.length + indexBytes.length + indexPadding)
  else .ok s

/-- The two zero blocks, if the unit includes them. -/
def renderEndMarkers (includesEndMarkers : Bool) (s : RenderState) : RenderState :=
  if includesEndMarkers then (s.emit (zeros (tarBlockSize * 2))).advance (tarBlockSize * 2) else s

/-- `_require_unit`. -/
def requireUnit (plan : PackVolumePlan) (unitNumber : Nat) : Py PackUploadUnitPlan :=
  match plan.units[unitNumber]? with
  | none => .error (.valueError "pack upload unit is outside the plan")
  | some unit => do
    require (unit.unit == unitNumber) (.runtimeError "pack upload unit ordering is invalid")
    return unit

/-- `iter_render_pack_upload_unit`. -/
def iterRenderPackUploadUnit (plan : PackVolumePlan) (unitNumber : Nat)
    (readSourceChunks : Text → List Bytes) : Py (List Bytes) := do
  let unit ← requireUnit plan unitNumber
  let s ← renderSources plan.members unit.unit readSourceChunks unit.sources
    ⟨unit.plaintextStart, 0, []⟩
  let s ← renderPadding unit.padding s
  let s ← renderIndex unit.includesIndex plan.indexBytes s
  let s := renderEndMarkers unit.includesEndMarkers s
  require (s.absoluteCursor == unit.plaintextEnd && s.emitted == unit.plaintextBytes)
    (.runtimeError "rendered pack upload unit length does not match its plan")
  return s.output

/-- Every unit of a plan from `unitNumber` on, rendered in order. -/
def renderUnitsFrom (plan : PackVolumePlan) (readSourceChunks : Text → List Bytes) :
    Nat → Nat → Py (List Bytes)
  | 0, _ => .ok []
  | count + 1, unitNumber => do
    let chunks ← iterRenderPackUploadUnit plan unitNumber readSourceChunks
    let rest ← renderUnitsFrom plan readSourceChunks count (unitNumber + 1)
    return chunks ++ rest

/-- All upload units, rendered in order: the chunks of the whole pack. -/
def renderPack (plan : PackVolumePlan) (readSourceChunks : Text → List Bytes) : Py (List Bytes) :=
  renderUnitsFrom plan readSourceChunks plan.units.length 0

end Riverhog.Pack
