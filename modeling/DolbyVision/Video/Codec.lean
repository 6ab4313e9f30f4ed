/-
**Codecs and their parameters.**

Codecs and kinds of extra data are known by numbers, so that an application can add its own.  The
parameters of a stream hold the codec, the geometry and color of the pictures, and extra data in the
order in which it was added.

Main definitions:

* `DolbyVision.CodecId`, `DolbyVision.ExtraDataId` — numbers of codecs and of kinds of extra data;
* `DolbyVision.ExtraData` — extra data of a kind;
* `DolbyVision.Parameters` — the parameters of a stream, with `addExtraData`, `replaceExtraData`,
  `removeExtraData` and `extraData?`.
-/

import DolbyVision.FrameRate
import DolbyVision.Video.ColorDescription
import DolbyVision.Video.PixelFormat

set_option relaxedAutoImplicit false
set_option autoImplicit false

namespace DolbyVision

/-- The number of a codec. -/
structure CodecId where
  value : UInt32
  deriving DecidableEq

namespace CodecId

/-- No codec. -/
def null : CodecId := ⟨0⟩

instance : Inhabited CodecId := ⟨null⟩

/-- VP9. -/
def vp9 : CodecId := ⟨0x806⟩

/-- AV1. -/
def av1 : CodecId := ⟨0x901⟩

/-- H.264, also called AVC. -/
def h264 : CodecId := ⟨0xb04⟩

/-- H.265, also called HEVC. -/
def hevc : CodecId := ⟨0xb05⟩

/-- H.266, also called VVC. -/
def vvc : CodecId := ⟨0xb06⟩

/-- A codec of an application.  The upper bit keeps it apart from the known ones. -/
def application (n : UInt32) : CodecId := ⟨0x80000000 ||| n⟩

/-- The number of a codec in hexadecimal. -/
def text (id : CodecId) : String :=
  "0x" ++ String.ofList (Nat.toDigits 16 id.value.toNat)

end CodecId

/-- The number of a kind of extra data. -/
structure ExtraDataId where
  value : UInt32
  deriving DecidableEq

namespace ExtraDataId

/-- No kind. -/
def null : ExtraDataId := ⟨0⟩

instance : Inhabited ExtraDataId := ⟨null⟩

/-- The decoder configuration of H.264. -/
def avc : ExtraDataId := ⟨1⟩

/-- The decoder configuration of HEVC. -/
def hevc : ExtraDataId := ⟨2⟩

/-- The decoder configuration of AV1. -/
def av1 : ExtraDataId := ⟨4⟩

/-- The decoder configuration record of Dolby Vision. -/
def dolbyVision : ExtraDataId := ⟨5⟩

end ExtraDataId

/-- Extra data of a codec. -/
structure ExtraData where
  id : ExtraDataId
  data : List UInt8
  deriving DecidableEq, Inhabited

/-- The parameters of a video stream. -/
structure Parameters where
  codec : CodecId := .null
  width : Option UInt16 := none
  height : Option UInt16 := none
  /-- The frame rate, if it is constant and known. -/
  frameRate : Option FrameRate := none
  pixelFormat : Option PixelFormat := none
  primaries : Primaries := .unspecified
  transfer : Transfer := .unspecified
  matrix : Matrix := .unspecified
  extraData : List ExtraData := []
  deriving DecidableEq

namespace Parameters

instance : Inhabited Parameters := ⟨{}⟩

/-- Adds extra data behind what is there. -/
def addExtraData (p : Parameters) (d : ExtraData) : Parameters :=
  { p with extraData := p.extraData ++ [d] }

/-- Removes all extra data of a kind. -/
def removeExtraData (p : Parameters) (id : ExtraDataId) : Parameters :=
  { p with extraData := p.extraData.filter fun d => d.id != id }

/-- Adds extra data in place of all extra data of its kind. -/
def replaceExtraData (p : Parameters) (d : ExtraData) : Parameters :=
  (p.removeExtraData d.id).addExtraData d

/-- The first extra data of a kind. -/
def extraData? (p : Parameters) (id : ExtraDataId) : Option ExtraData :=
  p.extraData.find? fun d => d.id == id

end Parameters

end DolbyVision
