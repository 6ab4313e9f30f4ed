/-
**Decoded frames.**

A frame is known by its geometry and by the side data that came with it: metadata, or an RPU that
has not been decoded.

Main definitions:

* `DolbyVision.SideData` — what comes with a frame;
* `DolbyVision.Frame` — a frame, with `addSideData`, `replaceSideData`, `removeSideData` and
  `sideData?`.
-/

import DolbyVision.Metadata.Record
import DolbyVision.Video.PixelFormat

set_option relaxedAutoImplicit false
set_option autoImplicit false

namespace DolbyVision

/-- The kinds of side data. -/
inductive SideDataKind where
  | metadata
  | rpu
  deriving DecidableEq, Inhabited

/-- Data that comes with a frame. -/
inductive SideData where
  /-- Decoded metadata. -/
  | metadata (record : Metadata)
  /-- An RPU as it stands in the bitstream. -/
  | rpu (bytes : List UInt8)
  deriving DecidableEq, Inhabited

/-- The kind of side data. -/
def SideData.kind : SideData → SideDataKind
  | metadata _ => .metadata
  | rpu _ => .rpu

/-- The decoded metadata of side data. -/
def SideData.metadata? : SideData → Option Metadata
  | metadata record => some record
  | rpu _ => none

/-- A decoded frame. -/
structure Frame where
  width : UInt32 := 0
  height : UInt32 := 0
  format : Option PixelFormat := none
  sideData : List SideData := []
  deriving DecidableEq

namespace Frame

instance : Inhabited Frame := ⟨{}⟩

/-- The first side data of a kind. -/
def sideData? (f : Frame) (kind : SideDataKind) : Option SideData :=
  f.sideData.find? fun d => d.kind == kind

/-- Adds side data behind what is there. -/
def addSideData (f : Frame) (d : SideData) : Frame :=
  { f with sideData := f.sideData ++ [d] }

/-- Removes all side data of a kind. -/
def removeSideData (f : Frame) (kind : SideDataKind) : Frame :=
  { f with sideData := f.sideData.filter fun d => d.kind != kind }

/-- Adds side data in place of all side data of its kind. -/
def replaceSideData (f : Frame) (d : SideData) : Frame :=
  (f.removeSideData d.kind).addSideData d

end Frame

end DolbyVision
