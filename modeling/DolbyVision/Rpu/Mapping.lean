/-
**The mapping in the bits of an RPU.**

Pivots are written as differences, which is why they may not decrease.  The pivots of all curves
come first, then the pivots and the method of the inverse quantization, the partitions, the pieces
of all curves and the parameters of the inverse quantization.

Main definitions:

* `DolbyVision.Mapping.read` — a mapping behind its identifier;
* `DolbyVision.Mapping.validate` — whether a mapping can be written;
* `DolbyVision.Mapping.put` — a mapping behind its identifier.
-/

import DolbyVision.Metadata.Mapping
import DolbyVision.Rpu.Coefficient

set_option relaxedAutoImplicit false
set_option autoImplicit false

namespace DolbyVision.Mapping

open Bits

/-! ### Reading -/

/-- Reads `n` pivots, each coded as its difference from the one before.  A pivot stays at the
largest word of 16 bits if it does not fit in one. -/
def readPivots (depth : Nat) : Nat → Nat → BitParser (List UInt16)
  | 0, _ => return []
  | n + 1, previous => do
    let pivot ← Checked.add 32 previous (← Reader.bits32 depth)
    let pivots ← readPivots depth n pivot
    return UInt16.ofNat (min pivot 0xffff) :: pivots

/-- Reads the pivots of a curve. -/
def readCurvePivots (h : Header) : BitParser (List UInt16) := do
  let count ← Reader.unsignedCode
  if maxPivots < count + 2 then
    throw (.malformed .tooManyPivots)
  readPivots h.baseLayerBitDepth.toNat (count + 2) 0

/-- Reads a polynomial. -/
def readPolynomial (h : Header) : BitParser Piece := do
  let order ← Reader.unsignedCode
  if 1 < order then
    throw (.malformed .polynomialOrder)
  if order = 0 then
    if ← Reader.flag then
      throw (.unsupported .linearInterpolation)
  let c₀ ← Coefficient.readSigned h
  let c₁ ← Coefficient.readSigned h
  let c₂ ← if order = 1 then Coefficient.readSigned h else pure 0
  return .polynomial (UInt8.ofNat (← Checked.add 8 order 1)) #v[c₀, c₁, c₂]

/-- Reads a row of a regression, or gives zeros if the row is not there. -/
def readRow (h : Header) (present : Bool) : BitParser (Vector Int64 7) :=
  if present then Reader.times 7 (Coefficient.readSigned h) else pure (Vector.replicate 7 0)

/-- Reads a regression. -/
def readRegression (h : Header) : BitParser Piece := do
  let order ← Reader.bits32 2
  if 2 < order then
    throw (.malformed .mmrOrder)
  let constant ← Coefficient.readSigned h
  let r₀ ← readRow h true
  let r₁ ← readRow h (1 ≤ order)
  let r₂ ← readRow h (2 ≤ order)
  return .mmr (UInt8.ofNat (← Checked.add 8 order 1)) constant #v[r₀, r₁, r₂]

/-- Reads a piece of a curve. -/
def readPiece (h : Header) : BitParser Piece := do
  match ← Reader.unsignedCode with
  | 0 => readPolynomial h
  | 1 => readRegression h
  | _ => throw (.malformed .mappingMethod)

/-- Reads the pieces between given pivots. -/
def readPieces (h : Header) (pivots : List UInt16) : BitParser Curve := do
  let pieces ← Reader.list (pivots.length - 1) (readPiece h)
  return ⟨pivots, pieces⟩

/-- Reads the method and the pivots of the inverse quantization. -/
def readNlqMethod (h : Header) : BitParser (NlqMethod × Vector UInt16 2) := do
  if (← Reader.bits32 3) ≠ NlqMethod.linearDeadzone.code then
    throw (.malformed .nlqMethod)
  let depth := h.baseLayerBitDepth.toNat
  let first ← Checked.add 32 0 (← Reader.bits32 depth)
  let second ← Checked.add 32 first (← Reader.bits32 depth)
  return (.linearDeadzone, #v[UInt16.ofNat (min first 0xffff), UInt16.ofNat (min second 0xffff)])

/-- Reads the parameters of the inverse quantization of one component. -/
def readNlq (h : Header) : BitParser Nlq := do
  let offset ← Reader.u16 h.enhancementLayerBitDepth.toNat
  let inMax ← Coefficient.readUnsigned h
  let slope ← Coefficient.readUnsigned h
  let threshold ← Coefficient.readUnsigned h
  return ⟨offset, inMax, slope, threshold⟩

/-- Reads a mapping for the slot `id` and, if there is a residual, its inverse quantization. -/
def read (h : Header) (id : Nat) (usesNlq : Bool) : BitParser Mapping := do
  let colorSpace := UInt8.ofNat (← Reader.unsignedCode)
  let chromaFormat := UInt8.ofNat (← Reader.unsignedCode)
  let p₀ ← readCurvePivots h
  let p₁ ← readCurvePivots h
  let p₂ ← readCurvePivots h
  let method ← if usesNlq then some <$> readNlqMethod h else pure none
  let partitionsX ← Checked.add 32 (← Reader.unsignedCode) 1
  let partitionsY ← Checked.add 32 (← Reader.unsignedCode) 1
  let c₀ ← readPieces h p₀
  let c₁ ← readPieces h p₁
  let c₂ ← readPieces h p₂
  let nlq ← if usesNlq then Reader.times 3 (readNlq h) else pure (Vector.replicate 3 {})
  return {
    id := UInt8.ofNat id
    colorSpace, chromaFormat
    curves := #v[c₀, c₁, c₂]
    nlqMethod := method.map Prod.fst
    partitionsX := UInt32.ofNat partitionsX
    partitionsY := UInt32.ofNat partitionsY
    nlq
    nlqPivots := (method.map Prod.snd).getD (Vector.replicate 2 0) }

/-! ### Writing -/

/-- Checks that a curve has 2 to 9 pivots and one piece fewer than pivots, and that its pieces have
an order of their kind. -/
def validateCurve (c : Curve) : Except Fault Unit := do
  let pivots := c.pivots.length
  if pivots < 2 ∨ maxPivots < pivots then
    throw (.invalidArgument .reshapingCurve)
  if c.pieces.length ≠ (← Checked.sub pivots 1) then
    throw (.invalidArgument .reshapingCurve)
  if !c.pieces.all Piece.hasValidOrder then
    throw (.invalidArgument .pieceOrder)

/-- Checks that a mapping can be written, with the inverse quantization of a residual or without. -/
def validate (m : Mapping) (usesNlq : Bool) : Except Fault Unit := do
  if maxId < m.id.toNat then
    throw (.invalidArgument .mappingId)
  m.curves.toList.forM validateCurve
  if m.partitionsX = 0 ∨ m.partitionsY = 0 then
    throw (.invalidArgument .partitions)
  if m.nlqMethod.isSome ≠ usesNlq then
    throw (.invalidArgument .nlqMismatch)

/-- Writes pivots as differences of `width` bits from the one before. -/
def putDeltas (w : Writer) (width : Nat) (previous : UInt16) : List UInt16 → Except Fault Writer
  | [] => return w
  | pivot :: pivots => do
    if pivot < previous then
      throw (.invalidArgument .pivots)
    let delta ← Checked.sub pivot.toNat previous.toNat
    if (← Checked.bit 32 width) ≤ delta then
      throw (.invalidArgument .pivots)
    let w ← w.put width delta
    putDeltas w width pivot pivots

/-- Writes the pivots of a curve. -/
def putCurvePivots (h : Header) (w : Writer) (c : Curve) : Except Fault Writer := do
  let w ← w.putUnsignedCode (← Checked.sub c.pivots.length 2)
  putDeltas w h.baseLayerBitDepth.toNat 0 c.pivots

/-- Writes a list of coefficients. -/
def putCoefficients (h : Header) (w : Writer) (coefficients : List Int64) : Except Fault Writer :=
  coefficients.foldlM (fun w c => Coefficient.putSigned w h c) w

/-- Writes a piece of a curve. -/
def putPiece (h : Header) (w : Writer) : Piece → Except Fault Writer
  | .polynomial order coefficients => do
    let w ← w.putUnsignedCode 0
    let w ← w.putUnsignedCode (← Checked.sub order.toNat 1)
    let w ← if order = 1 then w.putFlag false else pure w
    putCoefficients h w (coefficients.toList.take (order.toNat + 1))
  | .mmr order constant coefficients => do
    let w ← w.putUnsignedCode 1
    let w ← w.put 2 (← Checked.sub order.toNat 1)
    let w ← Coefficient.putSigned w h constant
    (coefficients.toList.take order.toNat).foldlM (fun w row => putCoefficients h w row.toList) w

/-- Writes the pieces of a curve. -/
def putPieces (h : Header) (w : Writer) (c : Curve) : Except Fault Writer :=
  c.pieces.foldlM (putPiece h) w

/-- Writes the method and the pivots of the inverse quantization. -/
def putNlqMethod (h : Header) (w : Writer) (m : Mapping) : Except Fault Writer :=
  match m.nlqMethod with
  | none => return w
  | some method => do
    let w ← w.put 3 method.code
    putDeltas w h.baseLayerBitDepth.toNat 0 m.nlqPivots.toList

/-- Writes the parameters of the inverse quantization of one component. -/
def putNlq (h : Header) (w : Writer) (nlq : Nlq) : Except Fault Writer := do
  let width := h.enhancementLayerBitDepth.toNat
  if (← Checked.bit 32 width) ≤ nlq.offset.toNat then
    throw (.invalidArgument .nlqOffset)
  let w ← w.put width nlq.offset.toNat
  let w ← Coefficient.putUnsigned w h nlq.inMax
  let w ← Coefficient.putUnsigned w h nlq.slope
  Coefficient.putUnsigned w h nlq.threshold

/-- Writes a mapping behind its identifier. -/
def put (h : Header) (w : Writer) (m : Mapping) : Except Fault Writer := do
  let w ← w.putUnsignedCode m.colorSpace.toNat
  let w ← w.putUnsignedCode m.chromaFormat.toNat
  let w ← m.curves.toList.foldlM (putCurvePivots h) w
  let w ← putNlqMethod h w m
  let w ← w.putUnsignedCode (← Checked.sub m.partitionsX.toNat 1)
  let w ← w.putUnsignedCode (← Checked.sub m.partitionsY.toNat 1)
  let w ← m.curves.toList.foldlM (putPieces h) w
  if m.nlqMethod.isSome then
    m.nlq.toList.foldlM (putNlq h) w
  else
    return w

end DolbyVision.Mapping
