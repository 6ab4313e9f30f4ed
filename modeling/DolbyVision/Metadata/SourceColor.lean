/-
**The color description of the source.**

Display management starts from a description of the source: how its samples become light, and the
range of light that it uses.  It is also called the level 0 metadata.

Main definitions:

* `DolbyVision.SourceColor` — the description together with the identifiers of its RPU;
* `DolbyVision.SourceColor.sameColor` — whether two descriptions agree apart from the identifiers;
* `DolbyVision.SourceColor.assumed` — the description of a source that has none.
-/

set_option relaxedAutoImplicit false
set_option autoImplicit false

namespace DolbyVision

/-- The color description of the source. -/
structure SourceColor where
  id : UInt8 := 0
  sceneRefresh : UInt8 := 0
  /-- The matrix from YCbCr to RGB, in units of `2 ^ -13`. -/
  yccToRgb : Vector Int16 9 := Vector.replicate 9 0
  /-- The offsets of YCbCr, in units of `2 ^ -28`. -/
  yccOffset : Vector UInt32 3 := Vector.replicate 3 0
  /-- The matrix from RGB to cone responses, in units of `2 ^ -14`. -/
  rgbToLms : Vector Int16 9 := Vector.replicate 9 0
  eotf : UInt16 := 0
  eotfParam0 : UInt16 := 0
  eotfParam1 : UInt16 := 0
  eotfParam2 : UInt32 := 0
  bitDepth : UInt8 := 0
  colorSpace : UInt8 := 0
  chromaFormat : UInt8 := 0
  fullRange : UInt8 := 0
  minPq : UInt16 := 0
  maxPq : UInt16 := 0
  diagonal : UInt16 := 0
  deriving DecidableEq

namespace SourceColor

instance : Inhabited SourceColor := ⟨{}⟩

/-- Whether two descriptions agree in everything but the identifiers of their RPUs. -/
def sameColor (a b : SourceColor) : Bool :=
  { a with id := b.id, sceneRefresh := b.sceneRefresh } == b

/-- The description that holds for an RPU without display management data. -/
def assumed : SourceColor where
  yccToRgb := #v[9575, 0, 14742, 9575, 1754, 4383, 9575, 17372, 0]
  yccOffset := #v[16777216, 134217728, 134217728]
  rgbToLms := #v[7222, 8771, 390, 2654, 12430, 1300, 0, 422, 15962]
  eotf := 65535
  bitDepth := 12
  fullRange := 1
  minPq := 62
  maxPq := 3696
  diagonal := 42

end SourceColor

end DolbyVision
