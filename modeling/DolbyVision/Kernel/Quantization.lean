/-
**Quantization of audio bands.**

An audio encoder quantizes the coefficients of a band in two steps: it raises their magnitudes to
the power of three quarters, and scales, rounds and limits the result.

Main definitions:

* `DolbyVision.Kernel.power34`, `DolbyVision.Kernel.quantize` — one coefficient;
* `DolbyVision.Kernel.powers`, `DolbyVision.Kernel.quantizeBand` — a band, one by one;
* `DolbyVision.Kernel.powersStrips`, `DolbyVision.Kernel.quantizeBandStrips` — a band in strips.
-/

import DolbyVision.Kernel.Binary32
import DolbyVision.Kernel.Segment

set_option relaxedAutoImplicit false
set_option autoImplicit false

namespace DolbyVision.Kernel

variable {F : Type} [Binary32 F]

/-- The magnitude of a coefficient to the power of three quarters. -/
def power34 (x : F) : F :=
  let a := Binary32.abs x
  Binary32.sqrt (Binary32.mul a (Binary32.sqrt a))

/-- How a band is quantized. -/
structure Quantizer (F : Type) where
  /-- Whether the sign of a coefficient is kept. -/
  isSigned : Bool
  limit : Int32
  scale : F
  rounding : F

/-- Quantizes a coefficient whose magnitude to the power of three quarters is `scaled`.  A negation
stays within its word: the smallest word, which has no negative, is left as it is. -/
def quantize (q : Quantizer F) (coefficient scaled : F) : Int32 :=
  let value := Binary32.add (Binary32.mul scaled q.scale) q.rounding
  let level := Binary32.toInt32 (Binary32.minimum value (Binary32.ofInt32 q.limit))
  if q.isSigned && Binary32.isNegative coefficient then -level else level

/-- Stores the powers of the magnitudes of a band, as far as both lists reach. -/
def powers (target input : List F) : List F :=
  overwrite target (input.map power34)

/-- Stores the levels of a band, as far as all lists reach. -/
def quantizeBand (q : Quantizer F) (target : List Int32) (input scaled : List F) : List Int32 :=
  overwrite target (List.zipWith (quantize q) input scaled)

/-- The number of coefficients of a strip. -/
def bandStrip : Nat := 8

/-- Stores the powers of the magnitudes of a band strip by strip. -/
def powersStrips (target input : List F) : List F :=
  let length := min target.length input.length
  ((strips bandStrip (input.take length)).map (List.map power34)).flatten ++ target.drop length

/-- Stores the levels of a band strip by strip. -/
def quantizeBandStrips (q : Quantizer F) (target : List Int32) (input scaled : List F) :
    List Int32 :=
  let length := min target.length (min input.length scaled.length)
  (List.zipWith (List.zipWith (quantize q)) (strips bandStrip (input.take length))
    (strips bandStrip (scaled.take length))).flatten ++ target.drop length

end DolbyVision.Kernel
