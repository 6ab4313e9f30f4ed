/-
**Extension blocks in the bits of an RPU.**

A block is written as its length in bytes, its level and its body, which zero bits fill up to the
length.  The length of a block of level 8, 9 or 10 also says which of its optional fields are there.

Main definitions:

* `DolbyVision.Block.codedLength` — the length with which a block is written;
* `DolbyVision.Block.bodyFields`, `DolbyVision.Block.put` — the layout of a body, and a whole block;
* `DolbyVision.Block.readBody` — the body of a block in a group of a given version.
-/

import DolbyVision.Bits.Words
import DolbyVision.Bits.Writer
import DolbyVision.Metadata.Block

set_option relaxedAutoImplicit false
set_option autoImplicit false

namespace DolbyVision

open Bits

/-- The two groups of blocks of an RPU. -/
inductive BlockGroup where
  /-- The blocks of CM 2.9. -/
  | first
  /-- The blocks of CM 4.0. -/
  | second
  deriving DecidableEq, Inhabited

/-- The number of a group. -/
def BlockGroup.number : BlockGroup → Nat
  | first => 1
  | second => 2

/-- The group of a block. -/
def Block.group (b : Block) : BlockGroup :=
  if b.isCmV4 then .second else .first

/-! ### Layout -/

/-- The layout of chromaticities. -/
def Chromaticities.fields (c : Chromaticities) : List Field :=
  [c.redX, c.redY, c.greenX, c.greenY, c.blueX, c.blueY, c.whiteX, c.whiteY].map
    fun v => Field.ofInt 16 v.toInt

/-- The layout of a list of bytes. -/
def byteFields (bytes : List UInt8) : List Field :=
  bytes.map fun b => ⟨8, b.toNat⟩

/-- The index of primaries that are given by their chromaticities. -/
def customPrimaries : UInt8 := 255

namespace Block

/-- The length of a block in bytes: the shortest one that keeps all its fields. -/
def codedLength : Block → Nat
  | level1 _ => 5
  | level2 _ => 11
  | level3 _ => 5
  | level4 _ => 3
  | level5 _ => 7
  | level6 _ => 8
  | level8 d =>
    if d.hueVectorField.toList.any (· != 0) then 25
    else if d.saturationVectorField.toList.any (· != 0) then 19
    else if d.clipTrim ≠ 0 then 13
    else if d.targetMidContrast ≠ 0 then 12
    else 10
  | level9 d =>
    if d.sourcePrimaryIndex = customPrimaries ∨ !d.sourceDisplayPrimaries.isZero then 17 else 1
  | level10 d =>
    if d.targetPrimaryIndex = customPrimaries ∨ !d.targetDisplayPrimaries.isZero then 21 else 5
  | level11 _ => 4
  | level254 _ => 2
  | level255 _ => 6

/-- The layout of the body of a block that is written with a given length. -/
def bodyFields (length : Nat) : Block → List Field
  | level1 d => [⟨12, d.minPq.toNat⟩, ⟨12, d.maxPq.toNat⟩, ⟨12, d.avgPq.toNat⟩]
  | level2 d =>
    [⟨12, d.targetMaxPq.toNat⟩, ⟨12, d.trimSlope.toNat⟩, ⟨12, d.trimOffset.toNat⟩,
      ⟨12, d.trimPower.toNat⟩, ⟨12, d.trimChromaWeight.toNat⟩, ⟨12, d.trimSaturationGain.toNat⟩,
      Field.ofInt 13 d.msWeight.toInt]
  | level3 d => [⟨12, d.minPqOffset.toNat⟩, ⟨12, d.maxPqOffset.toNat⟩, ⟨12, d.avgPqOffset.toNat⟩]
  | level4 d => [⟨12, d.anchorPq.toNat⟩, ⟨12, d.anchorPower.toNat⟩]
  | level5 d =>
    [⟨13, d.leftOffset.toNat⟩, ⟨13, d.rightOffset.toNat⟩, ⟨13, d.topOffset.toNat⟩,
      ⟨13, d.bottomOffset.toNat⟩]
  | level6 d =>
    [⟨16, d.maxLuminance.toNat⟩, ⟨16, d.minLuminance.toNat⟩, ⟨16, d.maxCll.toNat⟩,
      ⟨16, d.maxFall.toNat⟩]
  | level8 d =>
    [⟨8, d.targetDisplayIndex.toNat⟩, ⟨12, d.trimSlope.toNat⟩, ⟨12, d.trimOffset.toNat⟩,
      ⟨12, d.trimPower.toNat⟩, ⟨12, d.trimChromaWeight.toNat⟩, ⟨12, d.trimSaturationGain.toNat⟩,
      ⟨12, d.msWeight.toNat⟩] ++
    (if 12 ≤ length then [⟨12, d.targetMidContrast.toNat⟩] else []) ++
    (if 13 ≤ length then [⟨12, d.clipTrim.toNat⟩] else []) ++
    (if 19 ≤ length then byteFields d.saturationVectorField.toList else []) ++
    (if 25 ≤ length then byteFields d.hueVectorField.toList else [])
  | level9 d =>
    ⟨8, d.sourcePrimaryIndex.toNat⟩ ::
      (if 1 < length then d.sourceDisplayPrimaries.fields else [])
  | level10 d =>
    [⟨8, d.targetDisplayIndex.toNat⟩, ⟨12, d.targetMaxPq.toNat⟩, ⟨12, d.targetMinPq.toNat⟩,
      ⟨8, d.targetPrimaryIndex.toNat⟩] ++
    (if 5 < length then d.targetDisplayPrimaries.fields else [])
  | level11 d =>
    [⟨8, d.contentType.toNat⟩, ⟨4, d.whitepoint.toNat⟩, ⟨1, d.referenceMode.toNat⟩, ⟨3, 0⟩,
      ⟨2, d.sharpness.toNat⟩, ⟨2, d.noiseReduction.toNat⟩, ⟨2, d.mpegNoiseReduction.toNat⟩,
      ⟨2, d.frameRateConversion.toNat⟩, ⟨2, d.brightness.toNat⟩, ⟨2, d.color.toNat⟩]
  | level254 d => [⟨8, d.dmMode.toNat⟩, ⟨8, d.dmVersionIndex.toNat⟩]
  | level255 d =>
    [⟨8, d.dmRunMode.toNat⟩, ⟨8, d.dmRunVersion.toNat⟩] ++ byteFields d.dmDebug.toList

/-! ### Writing -/

/-- Writes a block: its length, its level, its body and zero bits up to its length. -/
def put (w : Writer) (b : Block) : Except Fault Writer := do
  let length := b.codedLength
  let w ← w.putUnsignedCode length
  let w ← w.put 8 b.level.toNat
  let start := w.bitsWritten
  let w ← w.putFields (b.bodyFields length)
  let written ← Checked.sub w.bitsWritten start
  let size ← Checked.mul 64 8 length
  w.put (← Checked.sub size written) 0

/-! ### Reading -/

/-- Reads chromaticities. -/
def readChromaticities : BitParser Chromaticities := do
  let redX ← Reader.i16 16
  let redY ← Reader.i16 16
  let greenX ← Reader.i16 16
  let greenY ← Reader.i16 16
  let blueX ← Reader.i16 16
  let blueY ← Reader.i16 16
  let whiteX ← Reader.i16 16
  let whiteY ← Reader.i16 16
  return { redX, redY, greenX, greenY, blueX, blueY, whiteX, whiteY }

/-- Reads an item if it is there, and gives `absent` otherwise. -/
def readIf {α : Type} (present : Bool) (item : BitParser α) (absent : α) : BitParser α :=
  if present then item else pure absent

/-- Reads the body of a block of level 1. -/
def readLevel1 : BitParser Level1 := do
  let minPq ← Reader.u16 12
  let maxPq ← Reader.u16 12
  let avgPq ← Reader.u16 12
  return { minPq, maxPq, avgPq }

/-- Reads the body of a block of level 2. -/
def readLevel2 : BitParser Level2 := do
  let targetMaxPq ← Reader.u16 12
  let trimSlope ← Reader.u16 12
  let trimOffset ← Reader.u16 12
  let trimPower ← Reader.u16 12
  let trimChromaWeight ← Reader.u16 12
  let trimSaturationGain ← Reader.u16 12
  let msWeight ← Reader.i16 13
  return {
    targetMaxPq, trimSlope, trimOffset, trimPower, trimChromaWeight, trimSaturationGain, msWeight }

/-- Reads the body of a block of level 3. -/
def readLevel3 : BitParser Level3 := do
  let minPqOffset ← Reader.u16 12
  let maxPqOffset ← Reader.u16 12
  let avgPqOffset ← Reader.u16 12
  return { minPqOffset, maxPqOffset, avgPqOffset }

/-- Reads the body of a block of level 4. -/
def readLevel4 : BitParser Level4 := do
  let anchorPq ← Reader.u16 12
  let anchorPower ← Reader.u16 12
  return { anchorPq, anchorPower }

/-- Reads the body of a block of level 5. -/
def readLevel5 : BitParser Level5 := do
  let leftOffset ← Reader.u16 13
  let rightOffset ← Reader.u16 13
  let topOffset ← Reader.u16 13
  let bottomOffset ← Reader.u16 13
  return { leftOffset, rightOffset, topOffset, bottomOffset }

/-- Reads the body of a block of level 6. -/
def readLevel6 : BitParser Level6 := do
  let maxLuminance ← Reader.u16 16
  let minLuminance ← Reader.u16 16
  let maxCll ← Reader.u16 16
  let maxFall ← Reader.u16 16
  return { maxLuminance, minLuminance, maxCll, maxFall }

/-- Reads the body of a block of level 8 and a given length. -/
def readLevel8 (length : Nat) : BitParser Level8 := do
  if length < 10 then
    throw (.malformed .shortLevel8Block)
  let targetDisplayIndex ← Reader.u8 8
  let trimSlope ← Reader.u16 12
  let trimOffset ← Reader.u16 12
  let trimPower ← Reader.u16 12
  let trimChromaWeight ← Reader.u16 12
  let trimSaturationGain ← Reader.u16 12
  let msWeight ← Reader.u16 12
  let targetMidContrast ← readIf (12 ≤ length) (Reader.u16 12) 0
  let clipTrim ← readIf (13 ≤ length) (Reader.u16 12) 0
  let saturationVectorField ←
    readIf (19 ≤ length) (Reader.times 6 (Reader.u8 8)) (Vector.replicate 6 0)
  let hueVectorField ← readIf (25 ≤ length) (Reader.times 6 (Reader.u8 8)) (Vector.replicate 6 0)
  return {
    targetDisplayIndex, trimSlope, trimOffset, trimPower, trimChromaWeight, trimSaturationGain
    msWeight, targetMidContrast, clipTrim, saturationVectorField, hueVectorField }

/-- Reads the body of a block of level 9 and a given length. -/
def readLevel9 (length : Nat) : BitParser Level9 := do
  let sourcePrimaryIndex ← Reader.u8 8
  let sourceDisplayPrimaries ← readIf (1 < length) readChromaticities {}
  return { sourcePrimaryIndex, sourceDisplayPrimaries }

/-- Reads the body of a block of level 10 and a given length. -/
def readLevel10 (length : Nat) : BitParser Level10 := do
  let targetDisplayIndex ← Reader.u8 8
  let targetMaxPq ← Reader.u16 12
  let targetMinPq ← Reader.u16 12
  let targetPrimaryIndex ← Reader.u8 8
  let targetDisplayPrimaries ← readIf (5 < length) readChromaticities {}
  return {
    targetDisplayIndex, targetMaxPq, targetMinPq, targetPrimaryIndex, targetDisplayPrimaries }

/-- Reads the body of a block of level 11. -/
def readLevel11 : BitParser Level11 := do
  let contentType ← Reader.u8 8
  let whitepoint ← Reader.u8 4
  let referenceMode ← Reader.flag
  Reader.skip 3
  let sharpness ← Reader.u8 2
  let noiseReduction ← Reader.u8 2
  let mpegNoiseReduction ← Reader.u8 2
  let frameRateConversion ← Reader.u8 2
  let brightness ← Reader.u8 2
  let color ← Reader.u8 2
  return {
    contentType, whitepoint, referenceMode, sharpness, noiseReduction, mpegNoiseReduction
    frameRateConversion, brightness, color }

/-- Reads the body of a block of level 254. -/
def readLevel254 : BitParser Level254 := do
  let dmMode ← Reader.u8 8
  let dmVersionIndex ← Reader.u8 8
  return { dmMode, dmVersionIndex }

/-- Reads the body of a block of level 255. -/
def readLevel255 : BitParser Level255 := do
  let dmRunMode ← Reader.u8 8
  let dmRunVersion ← Reader.u8 8
  let dmDebug ← Reader.times 4 (Reader.u8 8)
  return { dmRunMode, dmRunVersion, dmDebug }

/-- Reads the body of a block of CM 2.9, or nothing if the level is unknown. -/
def readFirst (level : UInt8) : BitParser (Option Block) :=
  match level.toNat with
  | 1 => some <$> level1 <$> readLevel1
  | 2 => some <$> level2 <$> readLevel2
  | 4 => some <$> level4 <$> readLevel4
  | 5 => some <$> level5 <$> readLevel5
  | 6 => some <$> level6 <$> readLevel6
  | 255 => some <$> level255 <$> readLevel255
  | _ => pure none

/-- Reads the body of a block of CM 4.0, or nothing if the level is unknown. -/
def readSecond (level : UInt8) (length : Nat) : BitParser (Option Block) :=
  match level.toNat with
  | 3 => some <$> level3 <$> readLevel3
  | 8 => some <$> level8 <$> readLevel8 length
  | 9 => some <$> level9 <$> readLevel9 length
  | 10 => some <$> level10 <$> readLevel10 length
  | 11 => some <$> level11 <$> readLevel11
  | 254 => some <$> level254 <$> readLevel254
  | _ => pure none

/-- Reads the body of a block of a given group, or nothing if the level is unknown there. -/
def readBody (group : BlockGroup) (level : UInt8) (length : Nat) : BitParser (Option Block) :=
  match group with
  | .first => readFirst level
  | .second => readSecond level length

end Block

end DolbyVision
