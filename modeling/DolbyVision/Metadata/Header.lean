/-
**The header of an RPU.**

The header of a reference processing unit (RPU) names its format, how coefficients are coded, the
bit depths of the layers and whether there is a residual.

Main definitions:

* `DolbyVision.Header` — the fields of the header;
* `DolbyVision.Header.usesNlq` — whether the enhancement layer is inversely quantized;
* `DolbyVision.Header.guessedProfile` — the profile of a stream with such a header.
-/

set_option relaxedAutoImplicit false
set_option autoImplicit false

namespace DolbyVision

/-- The header of an RPU. -/
structure Header where
  /-- The type of the RPU.  Only type 2 is defined. -/
  rpuType : UInt8 := 0
  /-- The format, of 11 bits. -/
  rpuFormat : UInt16 := 0
  rpuProfile : UInt8 := 0
  rpuLevel : UInt8 := 0
  chromaResamplingExplicitFilter : Bool := false
  /-- How coefficients are coded: `Header.fixedPoint` or `Header.floatingPoint`. -/
  coefficientType : UInt8 := 0
  /-- The number of fraction bits of every coefficient. -/
  coefficientLog2Denominator : UInt8 := 0
  normalizedIdc : UInt8 := 0
  baseLayerFullRange : Bool := false
  /-- The bit depth of the base layer, 8 to 16. -/
  baseLayerBitDepth : UInt8 := 0
  /-- The bit depth of the enhancement layer, 8 to 16. -/
  enhancementLayerBitDepth : UInt8 := 0
  /-- The bit depth of the output, 8 to 16. -/
  outputBitDepth : UInt8 := 0
  spatialResamplingFilter : Bool := false
  enhancementLayerSpatialResamplingFilter : Bool := false
  disableResidual : Bool := false
  extendedMappingLow : UInt8 := 0
  extendedMappingHigh : UInt8 := 0
  deriving DecidableEq

namespace Header

instance : Inhabited Header := ⟨{}⟩

/-- The coefficient type of fixed-point numbers. -/
def fixedPoint : UInt8 := 0

/-- The coefficient type of binary32 numbers. -/
def floatingPoint : UInt8 := 1

/-- Whether the RPU describes the inverse quantization of a residual. -/
def usesNlq (h : Header) : Bool :=
  !h.disableResidual

/-- The profile of a stream whose RPUs have this header, or 0 if the header does not tell. -/
def guessedProfile (h : Header) : UInt8 :=
  if h.rpuProfile = 0 then
    if h.baseLayerFullRange then 5 else 0
  else if h.rpuProfile = 1 then
    if h.enhancementLayerSpatialResamplingFilter && h.usesNlq then
      if h.outputBitDepth = 12 then 7 else 4
    else 8
  else 0

end Header

end DolbyVision
