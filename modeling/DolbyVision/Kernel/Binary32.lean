/-
**Arithmetic of binary32 numbers.**

The kernels on floating-point samples are written over a class of operations, so that what they
compute does not depend on how the operations round.

Main definitions:

* `DolbyVision.Kernel.Binary32` — the operations;
* the instance of `DolbyVision.Kernel.Binary32` for `Float32`.
-/

set_option relaxedAutoImplicit false
set_option autoImplicit false

namespace DolbyVision.Kernel

/-- The operations on binary32 numbers, each of which rounds its result. -/
class Binary32 (F : Type) where
  add : F → F → F
  sub : F → F → F
  mul : F → F → F
  sqrt : F → F
  abs : F → F
  /-- The smaller of two numbers; a number is smaller than what is none. -/
  minimum : F → F → F
  ofInt32 : Int32 → F
  /-- The nearest integer towards zero, kept within 32 bits; zero for what is no number. -/
  toInt32 : F → Int32
  /-- Whether a number is below zero. -/
  isNegative : F → Bool

instance : Binary32 Float32 where
  add a b := a + b
  sub a b := a - b
  mul a b := a * b
  sqrt := Float32.sqrt
  abs := Float32.abs
  minimum a b := if a.isNaN then b else if b.isNaN then a else if b < a then b else a
  ofInt32 := Int32.toFloat32
  toInt32 := Float32.toInt32
  isNegative a := a < 0

end DolbyVision.Kernel
