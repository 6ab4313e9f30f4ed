/-
**What a stream carries from one RPU to the next.**

An RPU may refer to what earlier ones said: to a mapping in one of sixteen slots, to the color
description and to the static blocks.  A `Stream` is what a decoder or an encoder remembers for
that, together with the configuration of the stream.

Main definitions:

* `DolbyVision.Enable` — whether an encoder writes metadata;
* `DolbyVision.Stream` — the state between two RPUs;
* `DolbyVision.Stream.flush` — the state without what RPUs left in it;
* `DolbyVision.Stream.metadata` — the metadata of the last RPU, without references;
* `DolbyVision.LabelledStream` — a stream with the name under which it is reported;
* `DolbyVision.Outcome` — what an operation on a state gives.
-/

import DolbyVision.Configuration.Record
import DolbyVision.Metadata.Record
import DolbyVision.Rpu.BlockGroup
import DolbyVision.Video.Frame

set_option relaxedAutoImplicit false
set_option autoImplicit false

namespace DolbyVision

/-- Whether an encoder writes metadata. -/
inductive Enable where
  | off
  | on
  /-- Only if the source has metadata and the stream can carry it. -/
  | auto
  deriving DecidableEq

namespace Enable

instance : Inhabited Enable := ⟨.off⟩

/-- The choice that a number stands for: zero for off and a negative number for automatic. -/
def ofInt (n : Int) : Enable :=
  if n = 0 then off else if n < 0 then auto else on

/-- The number of a choice. -/
def toInt : Enable → Int
  | off => 0
  | on => 1
  | auto => -1

theorem ofInt_toInt (e : Enable) : ofInt e.toInt = e := by
  cases e <;> decide

end Enable

/-- The identifier of a mapping or of a color description. -/
abbrev Id := Fin (maxId + 1)

/-- Mappings that were sent, by slot. -/
abbrev Slots := Vector (Option Mapping) (maxId + 1)

/-- Slots without mappings. -/
def Slots.empty : Slots := Vector.replicate (maxId + 1) none

/-- The slots with a mapping in one of them. -/
def Slots.keep (slots : Slots) (id : Id) (m : Mapping) : Slots :=
  slots.set id (some m)

/-- Which color description holds. -/
inductive ColorView where
  /-- None yet. -/
  | unknown
  /-- The one that is assumed when an RPU has no display management data. -/
  | assumed
  /-- The one that was sent. -/
  | sent
  deriving DecidableEq, Inhabited

/-- The state between two RPUs of a stream. -/
structure Stream where
  enable : Enable := .off
  configuration : Configuration := {}
  /-- The header of the last RPU. -/
  header : Header := {}
  /-- The slot of the mapping that holds. -/
  active : Option Id := none
  view : ColorView := .unknown
  /-- The blocks of the last RPU, if it had any. -/
  blocks : Option BlockSet := none
  /-- The color description that was sent last. -/
  color : Option SourceColor := none
  /-- The mappings that were sent. -/
  slots : Slots := .empty
  deriving DecidableEq

namespace Stream

instance : Inhabited Stream := ⟨{}⟩

/-- The mapping in a slot. -/
def slot (s : Stream) (id : Id) : Option Mapping :=
  s.slots[id]

/-- The mapping that holds. -/
def activeMapping (s : Stream) : Option Mapping :=
  s.active.bind s.slot

/-- The color description that holds. -/
def activeColor (s : Stream) : Option SourceColor :=
  match s.view with
  | .unknown => none
  | .assumed => some .assumed
  | .sent => s.color

/-- Forgets what RPUs left behind.  The configuration and the choice of the encoder stay. -/
def flush (s : Stream) : Stream :=
  { enable := s.enable, configuration := s.configuration }

/-- The metadata of the last RPU with everything that it refers to, if a mapping and a color
description hold. -/
def metadata (s : Stream) : Option Metadata := do
  let mapping ← s.activeMapping
  let color ← s.activeColor
  return { header := s.header, mapping, color, blocks := (s.blocks.map BlockSet.toList).getD [] }

/-- Attaches the metadata of the last RPU to a frame in place of other metadata.  A frame is left
alone if there is none. -/
def attach (s : Stream) (f : Frame) : Frame :=
  match s.metadata with
  | some m => f.replaceSideData (.metadata m)
  | none => f

/-- The slots in use, with their mappings. -/
def occupied (s : Stream) : List (Nat × Mapping) :=
  (List.finRange (maxId + 1)).filterMap fun id => (s.slot id).map fun m => (id.val, m)

end Stream

/-- A stream with the name under which it is reported.  The name has no part in any result. -/
structure LabelledStream where
  label : Option String := none
  stream : Stream := {}
  deriving DecidableEq, Inhabited

namespace LabelledStream

/-- An empty stream of a given name. -/
def named (label : String) : LabelledStream :=
  { label := some label }

/-- The name under which notes are reported. -/
def name (s : LabelledStream) : String :=
  s.label.getD "dovi"

/-- Takes over everything but the name of another stream. -/
def replaceBy (s other : LabelledStream) : LabelledStream :=
  { s with stream := other.stream }

/-- Forgets everything but the name. -/
def release (s : LabelledStream) : LabelledStream :=
  { label := s.label }

end LabelledStream

/-- What an operation gives: a result or a fault, the state afterwards, and notes. -/
structure Outcome (σ α : Type) where
  result : Except Fault α
  state : σ
  notes : List Note

end DolbyVision
