/-
**The metadata of one frame.**

Main definitions:

* `DolbyVision.Metadata` — everything that an RPU says about its frame, without reference to any
  other RPU;
* `DolbyVision.Metadata.findLevel` — the first block of a level.
-/

import DolbyVision.Metadata.Block
import DolbyVision.Metadata.Header
import DolbyVision.Metadata.Mapping
import DolbyVision.Metadata.SourceColor

set_option relaxedAutoImplicit false
set_option autoImplicit false

namespace DolbyVision

/-- The metadata of one frame. -/
structure Metadata where
  header : Header := {}
  mapping : Mapping := {}
  color : SourceColor := {}
  /-- The extension blocks.  A decoder lists the static ones first. -/
  blocks : List Block := []
  deriving DecidableEq

instance : Inhabited Metadata := ⟨{}⟩

/-- The first block of a level. -/
def Metadata.findLevel (m : Metadata) (level : UInt8) : Option Block :=
  m.blocks.find? fun b => b.level == level

end DolbyVision
