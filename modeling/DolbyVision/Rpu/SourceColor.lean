/-
**The color description in the bits of an RPU.**

Main definitions:

* `DolbyVision.SourceColor.read` — a description behind its identifiers;
* `DolbyVision.SourceColor.fields` — the layout in which it is written;
* `DolbyVision.SourceColor.hasValidBitDepth` — whether a decoder accepts its bit depth.
-/

import DolbyVision.Bits.Words
import DolbyVision.Bits.Writer
import DolbyVision.Metadata.SourceColor

set_option relaxedAutoImplicit false
set_option autoImplicit false

namespace DolbyVision.SourceColor

open Bits

/-- Whether a bit depth is one that a signal can have. -/
def isBitDepth (depth : UInt8) : Bool :=
  8 ≤ depth && depth ≤ 16

/-- Whether the bit depth of a description is one that a signal can have. -/
def hasValidBitDepth (c : SourceColor) : Bool :=
  isBitDepth c.bitDepth

/-- Reads a description for given identifiers. -/
def read (id sceneRefresh : UInt8) : BitParser SourceColor := do
  let yccToRgb ← Reader.times 9 (Reader.i16 16)
  let yccOffset ← Reader.times 3 (Reader.u32 32)
  let rgbToLms ← Reader.times 9 (Reader.i16 16)
  let eotf ← Reader.u16 16
  let eotfParam0 ← Reader.u16 16
  let eotfParam1 ← Reader.u16 16
  let eotfParam2 ← Reader.u32 32
  let bitDepth ← Reader.u8 5
  if !isBitDepth bitDepth then
    throw (.malformed .signalBitDepth)
  let colorSpace ← Reader.u8 2
  let chromaFormat ← Reader.u8 2
  let fullRange ← Reader.u8 2
  let minPq ← Reader.u16 12
  let maxPq ← Reader.u16 12
  let diagonal ← Reader.u16 10
  return {
    id, sceneRefresh, yccToRgb, yccOffset, rgbToLms, eotf, eotfParam0, eotfParam1, eotfParam2
    bitDepth, colorSpace, chromaFormat, fullRange, minPq, maxPq, diagonal }

/-- The layout of a description. -/
def fields (c : SourceColor) : List Field :=
  c.yccToRgb.toList.map (fun v => Field.ofInt 16 v.toInt) ++
  c.yccOffset.toList.map (fun v => ⟨32, v.toNat⟩) ++
  c.rgbToLms.toList.map (fun v => Field.ofInt 16 v.toInt) ++
  [⟨16, c.eotf.toNat⟩, ⟨16, c.eotfParam0.toNat⟩, ⟨16, c.eotfParam1.toNat⟩, ⟨32, c.eotfParam2.toNat⟩,
    ⟨5, c.bitDepth.toNat⟩, ⟨2, c.colorSpace.toNat⟩, ⟨2, c.chromaFormat.toNat⟩,
    ⟨2, c.fullRange.toNat⟩, ⟨12, c.minPq.toNat⟩, ⟨12, c.maxPq.toNat⟩, ⟨10, c.diagonal.toNat⟩]

end DolbyVision.SourceColor
