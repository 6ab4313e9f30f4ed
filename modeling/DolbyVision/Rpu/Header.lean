/-
**The header in the bits of an RPU.**

Main definitions:

* `DolbyVision.Header.read` — the header behind the type of the RPU;
* `DolbyVision.Header.validate` — whether a header can be written;
* `DolbyVision.Header.put` — the header with the type of the RPU.

The upper bits of the coded depth of the enhancement layer carry the extended mapping numbers.
-/

import DolbyVision.Bits.Words
import DolbyVision.Bits.Writer
import DolbyVision.Metadata.Header
import DolbyVision.Strictness

set_option relaxedAutoImplicit false
set_option autoImplicit false

namespace DolbyVision.Header

open Bits

/-- The bits of a format that have to be zero. -/
def formatMask : UInt16 := 0x700

/-- The largest value of a format. -/
def maxFormat : UInt16 := 0x7ff

/-- Whether a number of fraction bits is one that fixed-point coefficients can have. -/
def isFractionWidth (n : Nat) : Bool :=
  13 ≤ n && n ≤ 32

/-- The number of fraction bits of binary32 coefficients. -/
def floatingPointFraction : UInt8 := 32

/-- Reads the number of fraction bits of coefficients of a given type. -/
def readFractionWidth (coefficientType : UInt8) : BitParser UInt8 := do
  if coefficientType = fixedPoint then
    let width ← Reader.unsignedCode
    if isFractionWidth width then
      return UInt8.ofNat width
    else
      throw (.malformed .coefficientDenominator)
  else if coefficientType = floatingPoint then
    return floatingPointFraction
  else
    throw (.malformed .coefficientType)

/-- Reads the header of an RPU of a given type, from the format to the residual flag.  Reserved bits
that are set are refused only by a careful decoder. -/
def read (rpuType : UInt8) (strictness : Strictness) : BitParser Header := do
  let rpuFormat ← Reader.u16 11
  let rpuProfile ← Reader.u8 4
  let rpuLevel ← Reader.u8 4
  if !(← Reader.flag) then
    throw (.unsupported .missingSequenceInfo)
  let chromaResamplingExplicitFilter ← Reader.flag
  let coefficientType ← Reader.u8 2
  let coefficientLog2Denominator ← readFractionWidth coefficientType
  let normalizedIdc ← Reader.u8 2
  let baseLayerFullRange ← Reader.flag
  if rpuFormat &&& formatMask ≠ 0 then
    throw (.unsupported .rpuFormat)
  let baseLayer ← Reader.unsignedCode
  let enhancementLayer ← Reader.unsignedCode
  let output ← Reader.unsignedCode
  let extended := enhancementLayer / 256
  let enhancementLayer := enhancementLayer % 256
  if 8 < baseLayer ∨ 8 < enhancementLayer ∨ 8 < output ∨ 0xff < extended then
    throw (.malformed .bitDepth)
  let spatialResamplingFilter ← Reader.flag
  let reserved ← Reader.bits32 3
  if reserved ≠ 0 ∧ strictness.isCareful then
    throw (.rejected .reservedBits)
  let enhancementLayerSpatialResamplingFilter ← Reader.flag
  let disableResidual ← Reader.flag
  return {
    rpuType, rpuFormat, rpuProfile, rpuLevel, chromaResamplingExplicitFilter, coefficientType
    coefficientLog2Denominator, normalizedIdc, baseLayerFullRange
    baseLayerBitDepth := UInt8.ofNat (← Checked.add 8 baseLayer 8)
    enhancementLayerBitDepth := UInt8.ofNat (← Checked.add 8 enhancementLayer 8)
    outputBitDepth := UInt8.ofNat (← Checked.add 8 output 8)
    spatialResamplingFilter, enhancementLayerSpatialResamplingFilter, disableResidual
    extendedMappingLow := UInt8.ofNat (extended % 32)
    extendedMappingHigh := UInt8.ofNat (extended / 32) }

/-- Whether a bit depth is one that a layer can have. -/
def isBitDepth (depth : UInt8) : Bool :=
  8 ≤ depth && depth ≤ 16

/-- Checks that a header can be written. -/
def validate (h : Header) : Except Fault Unit := do
  if h.rpuFormat &&& formatMask ≠ 0 ∨ maxFormat < h.rpuFormat then
    throw (.unsupported .rpuFormat)
  if !(isBitDepth h.baseLayerBitDepth && isBitDepth h.enhancementLayerBitDepth &&
      isBitDepth h.outputBitDepth) then
    throw (.invalidArgument .bitDepth)
  if h.coefficientType = fixedPoint then
    if !isFractionWidth h.coefficientLog2Denominator.toNat then
      throw (.invalidArgument .coefficientDenominator)
  else if h.coefficientType = floatingPoint then
    if h.coefficientLog2Denominator ≠ floatingPointFraction then
      throw (.invalidArgument .coefficientDenominator)
  else
    throw (.invalidArgument .coefficientType)

/-- The extended mapping numbers in one. -/
def extendedMapping (h : Header) : Nat :=
  h.extendedMappingHigh.toNat % 8 * 32 + h.extendedMappingLow.toNat % 32

/-- The fields in front of the number of fraction bits. -/
def leadingFields (h : Header) : List Field :=
  [⟨6, h.rpuType.toNat⟩, ⟨11, h.rpuFormat.toNat⟩, ⟨4, h.rpuProfile.toNat⟩, ⟨4, h.rpuLevel.toNat⟩,
    ⟨1, 1⟩, ⟨1, h.chromaResamplingExplicitFilter.toNat⟩, ⟨2, h.coefficientType.toNat⟩]

/-- The fields behind the bit depths. -/
def trailingFields (h : Header) : List Field :=
  [⟨1, h.spatialResamplingFilter.toNat⟩, ⟨3, 0⟩,
    ⟨1, h.enhancementLayerSpatialResamplingFilter.toNat⟩, ⟨1, h.disableResidual.toNat⟩]

/-- Writes a header with the type of its RPU. -/
def put (w : Writer) (h : Header) : Except Fault Writer := do
  let w ← w.putFields h.leadingFields
  let w ←
    if h.coefficientType = fixedPoint then w.putUnsignedCode h.coefficientLog2Denominator.toNat
    else pure w
  let w ← w.putFields [⟨2, h.normalizedIdc.toNat⟩, ⟨1, h.baseLayerFullRange.toNat⟩]
  let w ← w.putUnsignedCode (← Checked.sub h.baseLayerBitDepth.toNat 8)
  -- One code holds the bit depth and, above it, the extended mapping.
  let enhancementLayer ← Checked.sub h.enhancementLayerBitDepth.toNat 8
  let w ← w.putUnsignedCode (h.extendedMapping * 256 + enhancementLayer)
  let w ← w.putUnsignedCode (← Checked.sub h.outputBitDepth.toNat 8)
  w.putFields h.trailingFields

end DolbyVision.Header
