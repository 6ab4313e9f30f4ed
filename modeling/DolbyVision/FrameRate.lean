/-
**Frame rates.**

A frame rate is a quotient of two words.  It is kept as it was given, so its denominator may be
zero; `FrameRate.of?` refuses the quotients that are not a rate.

Main definitions:

* `DolbyVision.FrameRate` — a numerator and a denominator;
* `DolbyVision.FrameRate.of?` — a rate with a positive numerator and denominator;
* `DolbyVision.FrameRate.toFloat` — the number of frames per second;
* `DolbyVision.FrameRate.scale` — a count per frame as a count per second.
-/

set_option relaxedAutoImplicit false
set_option autoImplicit false

namespace DolbyVision

/-- A number of frames per second, as a quotient. -/
structure FrameRate where
  numerator : UInt32
  denominator : UInt32
  deriving DecidableEq, Inhabited

namespace FrameRate

/-- Whether neither part of the quotient is zero. -/
def isProper (rate : FrameRate) : Bool :=
  rate.numerator ≠ 0 && rate.denominator ≠ 0

/-- The rate with the given parts, unless one of them is zero. -/
def of? (numerator denominator : UInt32) : Option FrameRate :=
  let rate : FrameRate := ⟨numerator, denominator⟩
  if rate.isProper then some rate else none

/-- The number of frames per second, or zero if the denominator is zero. -/
def toFloat (rate : FrameRate) : Float :=
  if rate.denominator = 0 then 0 else rate.numerator.toFloat / rate.denominator.toFloat

/-- The largest value of a 64-bit word, at which `scale` stays. -/
def limit : Nat := (1 <<< 64) - 1

/-- What `count` per frame amounts to per second, rounded towards zero and no more than `limit`.
It is zero if the denominator is zero. -/
def scale (rate : FrameRate) (count : Nat) : Nat :=
  min (count * rate.numerator.toNat / rate.denominator.toNat) limit

@[simp] theorem scale_of_denominator_eq_zero (numerator : UInt32) (count : Nat) :
    scale ⟨numerator, 0⟩ count = 0 := by
  simp [scale]

end FrameRate

end DolbyVision
