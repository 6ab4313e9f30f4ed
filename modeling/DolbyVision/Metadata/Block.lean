/-
**Display management extension blocks.**

An RPU carries blocks of display management data, each of a level that says what it holds.  Blocks
of some levels describe the whole stream; they are called static.  The levels 3, 8, 9, 10, 11 and
254 belong to version 4.0 of content mapping (CM), the others to version 2.9.

Main definitions:

* `DolbyVision.Chromaticities` — the primaries and the white point of a display;
* `DolbyVision.Level1` to `DolbyVision.Level255` — the contents of a block of each level;
* `DolbyVision.Block`, `DolbyVision.Block.level`, `DolbyVision.Block.isCmV4` — a block;
* `DolbyVision.levelIsStatic` — whether blocks of a level describe the whole stream.
-/

set_option relaxedAutoImplicit false
set_option autoImplicit false

namespace DolbyVision

/-- The chromaticities of a display in the CIE 1931 diagram, in units of `2 ^ -15`. -/
structure Chromaticities where
  redX : Int16 := 0
  redY : Int16 := 0
  greenX : Int16 := 0
  greenY : Int16 := 0
  blueX : Int16 := 0
  blueY : Int16 := 0
  whiteX : Int16 := 0
  whiteY : Int16 := 0
  deriving DecidableEq

/-- Whether all chromaticities are zero, which stands for none. -/
def Chromaticities.isZero (c : Chromaticities) : Bool :=
  c == {}

/-- The luminance of a shot. -/
structure Level1 where
  minPq : UInt16 := 0
  maxPq : UInt16 := 0
  avgPq : UInt16 := 0
  deriving DecidableEq

/-- The trims for a target display, in CM 2.9. -/
structure Level2 where
  targetMaxPq : UInt16 := 0
  trimSlope : UInt16 := 0
  trimOffset : UInt16 := 0
  trimPower : UInt16 := 0
  trimChromaWeight : UInt16 := 0
  trimSaturationGain : UInt16 := 0
  msWeight : Int16 := 0
  deriving DecidableEq

/-- Offsets to the luminance of a shot. -/
structure Level3 where
  minPqOffset : UInt16 := 0
  maxPqOffset : UInt16 := 0
  avgPqOffset : UInt16 := 0
  deriving DecidableEq

/-- The anchors of temporal filtering. -/
structure Level4 where
  anchorPq : UInt16 := 0
  anchorPower : UInt16 := 0
  deriving DecidableEq

/-- The margins around the active area. -/
structure Level5 where
  leftOffset : UInt16 := 0
  rightOffset : UInt16 := 0
  topOffset : UInt16 := 0
  bottomOffset : UInt16 := 0
  deriving DecidableEq

/-- The mastering display and the light level of the content. -/
structure Level6 where
  maxLuminance : UInt16 := 0
  minLuminance : UInt16 := 0
  maxCll : UInt16 := 0
  maxFall : UInt16 := 0
  deriving DecidableEq

/-- The trims for a target display, in CM 4.0. -/
structure Level8 where
  targetDisplayIndex : UInt8 := 0
  trimSlope : UInt16 := 0
  trimOffset : UInt16 := 0
  trimPower : UInt16 := 0
  trimChromaWeight : UInt16 := 0
  trimSaturationGain : UInt16 := 0
  msWeight : UInt16 := 0
  targetMidContrast : UInt16 := 0
  clipTrim : UInt16 := 0
  saturationVectorField : Vector UInt8 6 := Vector.replicate 6 0
  hueVectorField : Vector UInt8 6 := Vector.replicate 6 0
  deriving DecidableEq

/-- The primaries of the source display. -/
structure Level9 where
  sourcePrimaryIndex : UInt8 := 0
  sourceDisplayPrimaries : Chromaticities := {}
  deriving DecidableEq

/-- A target display that the format does not number. -/
structure Level10 where
  targetDisplayIndex : UInt8 := 0
  targetMaxPq : UInt16 := 0
  targetMinPq : UInt16 := 0
  targetPrimaryIndex : UInt8 := 0
  targetDisplayPrimaries : Chromaticities := {}
  deriving DecidableEq

/-- The kind of content and the intended picture mode. -/
structure Level11 where
  contentType : UInt8 := 0
  whitepoint : UInt8 := 0
  referenceMode : Bool := false
  sharpness : UInt8 := 0
  noiseReduction : UInt8 := 0
  mpegNoiseReduction : UInt8 := 0
  frameRateConversion : UInt8 := 0
  brightness : UInt8 := 0
  color : UInt8 := 0
  deriving DecidableEq

/-- The mode of display management, in CM 4.0. -/
structure Level254 where
  dmMode : UInt8 := 0
  dmVersionIndex : UInt8 := 0
  deriving DecidableEq

/-- The run mode of display management and its debug data, in CM 2.9. -/
structure Level255 where
  dmRunMode : UInt8 := 0
  dmRunVersion : UInt8 := 0
  dmDebug : Vector UInt8 4 := Vector.replicate 4 0
  deriving DecidableEq

/-- A display management extension block. -/
inductive Block where
  | level1 (data : Level1)
  | level2 (data : Level2)
  | level3 (data : Level3)
  | level4 (data : Level4)
  | level5 (data : Level5)
  | level6 (data : Level6)
  | level8 (data : Level8)
  | level9 (data : Level9)
  | level10 (data : Level10)
  | level11 (data : Level11)
  | level254 (data : Level254)
  | level255 (data : Level255)
  deriving DecidableEq

namespace Block

instance : Inhabited Block := ⟨.level1 {}⟩

/-- The level of a block. -/
def level : Block → UInt8
  | level1 _ => 1
  | level2 _ => 2
  | level3 _ => 3
  | level4 _ => 4
  | level5 _ => 5
  | level6 _ => 6
  | level8 _ => 8
  | level9 _ => 9
  | level10 _ => 10
  | level11 _ => 11
  | level254 _ => 254
  | level255 _ => 255

/-- Whether a block belongs to CM 4.0. -/
def isCmV4 : Block → Bool
  | level3 _ | level8 _ | level9 _ | level10 _ | level11 _ | level254 _ => true
  | _ => false

end Block

/-- Whether blocks of a level describe the whole stream and not one frame. -/
def levelIsStatic (level : UInt8) : Bool :=
  level == 6 || level == 10 || level == 32 || level == 254 || level == 255

/-- Whether a block describes the whole stream. -/
def Block.isStatic (b : Block) : Bool :=
  levelIsStatic b.level

end DolbyVision
