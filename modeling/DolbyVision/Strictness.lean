/-
**Strictness.**

A decoder is told by a set of flags which deviations it looks for and which it refuses; an encoder
is told by a degree of compliance how closely it has to follow the standards.

Main definitions:

* `DolbyVision.Strictness` — the flags of a decoder, with `checksum`, `explode`, `isCareful` and
  `isAggressive`;
* `DolbyVision.Compliance` — the degrees of an encoder, in their order.
-/

set_option relaxedAutoImplicit false
set_option autoImplicit false

namespace DolbyVision

/-- The flags that tell a decoder what to look for, as the bits of a word. -/
structure Strictness where
  bits : UInt32
  deriving DecidableEq, Inhabited

namespace Strictness

/-- No flags. -/
def none : Strictness := ⟨0⟩

/-- Verify checksums. -/
def checksum : Strictness := ⟨0x1⟩

/-- Look for deviations from the syntax. -/
def bitstream : Strictness := ⟨0x2⟩

/-- Look for wrong lengths. -/
def buffer : Strictness := ⟨0x4⟩

/-- Give up on minor errors. -/
def explode : Strictness := ⟨0x8⟩

/-- Go on after errors. -/
def ignoreErrors : Strictness := ⟨0x8000⟩

/-- Refuse deviations that have not been seen in practice. -/
def careful : Strictness := ⟨0x10000⟩

/-- Refuse all deviations from the standard. -/
def compliant : Strictness := ⟨0x30000⟩

/-- Refuse what a sane encoder would not write. -/
def aggressive : Strictness := ⟨0x70000⟩

/-- The flags of either set. -/
def union (a b : Strictness) : Strictness := ⟨a.bits ||| b.bits⟩

/-- Whether all flags of `b` are set in `a`. -/
def contains (a b : Strictness) : Bool := a.bits &&& b.bits == b.bits

/-- Whether a flag of `b` is set in `a`. -/
def intersects (a b : Strictness) : Bool := a.bits &&& b.bits != 0

/-- Whether a decoder checks more than what it needs to go on. -/
def isCareful (s : Strictness) : Bool := s.intersects (careful.union compliant)

/-- Whether a decoder refuses what is questionable but can be decoded. -/
def isAggressive (s : Strictness) : Bool := s.contains aggressive || s.contains explode

end Strictness

/-- How closely an encoder follows the standards, from the most permissive degree on. -/
inductive Compliance where
  | experimental
  | unofficial
  | normal
  | strict
  | veryStrict
  deriving DecidableEq

namespace Compliance

instance : Inhabited Compliance := ⟨.normal⟩

/-- The place of a degree in the order; the usual degree has place 0. -/
def rank : Compliance → Int
  | experimental => -2
  | unofficial => -1
  | normal => 0
  | strict => 1
  | veryStrict => 2

instance : LT Compliance := ⟨fun a b => a.rank < b.rank⟩

instance : LE Compliance := ⟨fun a b => a.rank ≤ b.rank⟩

instance (a b : Compliance) : Decidable (a < b) := inferInstanceAs (Decidable (a.rank < b.rank))

instance (a b : Compliance) : Decidable (a ≤ b) := inferInstanceAs (Decidable (a.rank ≤ b.rank))

end Compliance

end DolbyVision
