/-
**Groups of extension blocks.**

An RPU carries its blocks in up to two groups.  A decoder keeps the blocks of both, static ones
apart from the others, and of each sort only as many as fit.

Main definitions:

* `DolbyVision.BlockSet` — the blocks that are kept, with `push` and `toList`;
* `DolbyVision.Decoder` — a read that also reports notes;
* `DolbyVision.BlockGroup.read`, `DolbyVision.BlockGroup.put` — a group of blocks.
-/

import DolbyVision.Note
import DolbyVision.Rpu.Block
import DolbyVision.Strictness

set_option relaxedAutoImplicit false
set_option autoImplicit false

namespace DolbyVision

open Bits

/-! ### Sets of blocks -/

/-- The blocks of an RPU, each sort in the order in which it came. -/
structure BlockSet where
  /-- The blocks that describe the whole stream. -/
  static : List Block := []
  /-- The blocks that describe one frame. -/
  dynamic : List Block := []
  deriving DecidableEq

namespace BlockSet

instance : Inhabited BlockSet := ⟨{}⟩

/-- The largest number of static blocks. -/
def maxStatic : Nat := 7

/-- The largest number of dynamic blocks. -/
def maxDynamic : Nat := 25

/-- Whether there is no block. -/
def isEmpty (s : BlockSet) : Bool :=
  s.static.isEmpty && s.dynamic.isEmpty

/-- All blocks, the static ones first. -/
def toList (s : BlockSet) : List Block :=
  s.static ++ s.dynamic

/-- Adds a block behind those of its sort. -/
def push (s : BlockSet) (b : Block) : Except Fault BlockSet :=
  if b.isStatic then
    if maxStatic ≤ s.static.length then .error (.limit .tooManyStaticBlocks)
    else .ok { s with static := s.static ++ [b] }
  else
    if maxDynamic ≤ s.dynamic.length then .error (.limit .tooManyDynamicBlocks)
    else .ok { s with dynamic := s.dynamic ++ [b] }

/-- The set of the given blocks, if they fit. -/
def ofList (blocks : List Block) : Except Fault BlockSet :=
  blocks.foldlM push {}

end BlockSet

/-! ### Reading with notes -/

/-- The state of a decoder inside an RPU. -/
structure DecoderState where
  reader : Reader
  notes : Array Note

/-- A read that also reports notes.  The notes are kept when it fails. -/
abbrev Decoder := EStateM Fault DecoderState

/-- A read takes part in a decoder and leaves its notes as they were. -/
instance : MonadLift BitParser Decoder where
  monadLift x := fun s =>
    match x s.reader with
    | .ok a reader => .ok a { s with reader }
    | .error fault reader => .error fault { s with reader }

namespace Decoder

/-- Reports a note. -/
def report (note : Note) : Decoder Unit :=
  modify fun s => { s with notes := s.notes.push note }

/-- The number of bits that have not been read. -/
def bitsLeft : Decoder Nat := do
  return (← get).reader.bitsLeft

end Decoder

/-! ### Groups -/

namespace BlockGroup

/-- Decides whether a block of a given level is passed over, and reports why.  A static block does
not belong in compressed data, which refers to the static blocks that were sent before. -/
def passesOver (compressed : Bool) (strictness : Strictness) (kept : BlockSet) (level : UInt8) :
    Decoder Bool := do
  if levelIsStatic level then
    if compressed then
      Decoder.report (.staticBlockInCompressed level)
      if strictness.isAggressive then
        throw (.malformed .staticBlockInCompressed)
      return true
    else if BlockSet.maxStatic ≤ kept.static.length then
      Decoder.report .tooManyStaticBlocks
      return true
    else
      return false
  else if BlockSet.maxDynamic ≤ kept.dynamic.length then
    Decoder.report .tooManyDynamicBlocks
    return true
  else
    return false

/-- Reads the body of a block of a given length and what fills it up. -/
def readPadded (group : BlockGroup) (level : UInt8) (length : Nat) : BitParser (Option Block) := do
  let size ← Checked.mul 64 8 length
  let before := (← get).bitsLeft
  let block ← Block.readBody group level length
  let taken ← Checked.sub before (← get).bitsLeft
  -- A body may be shorter than its block but not longer.
  if size < taken then
    throw (.malformed .blockOverrun)
  let padding ← Checked.sub size taken
  Reader.skip (← Checked.within 32 padding)
  return block

/-- Reads a block and keeps it with those read before. -/
def readBlock (group : BlockGroup) (compressed : Bool) (strictness : Strictness) (kept : BlockSet) :
    Decoder BlockSet := do
  let length ← Reader.unsignedCode
  let level ← Reader.u8 8
  let size ← Checked.mul 64 8 length
  if (← Decoder.bitsLeft) < size then
    throw (.malformed .blockExceedsRpu)
  if ← passesOver compressed strictness kept level then
    Reader.skip (← Checked.mul 32 8 length)
    return kept
  else
    match ← readPadded group level length with
    | some block => kept.push block
    | none =>
      Decoder.report (.unknownBlock group.number level)
      return kept

/-- Reads `n` blocks and keeps them with those read before. -/
def readBlocks (group : BlockGroup) (compressed : Bool) (strictness : Strictness) :
    Nat → BlockSet → Decoder BlockSet
  | 0, kept => return kept
  | n + 1, kept => do
    let kept ← readBlock group compressed strictness kept
    readBlocks group compressed strictness n kept

/-- Reads a group: the number of its blocks and, from the next byte on, the blocks. -/
def read (group : BlockGroup) (compressed : Bool) (strictness : Strictness) (kept : BlockSet) :
    Decoder BlockSet := do
  let count ← Reader.unsignedCode
  Reader.realign
  readBlocks group compressed strictness count kept

/-- Writes a group of the given blocks. -/
def put (w : Writer) (blocks : List Block) : Except Fault Writer := do
  let w ← w.putUnsignedCode blocks.length
  blocks.foldlM Block.put (← w.realign)

end BlockGroup

end DolbyVision
