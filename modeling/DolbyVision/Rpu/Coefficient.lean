/-
**Coefficients of a mapping.**

A fixed-point coefficient has an integer part, written as an Exp-Golomb code, and a fraction of as
many bits as the header says.  A floating-point coefficient is a binary32 number, which is kept as
the fixed-point number nearest to it from the side of zero.

Main definitions:

* `DolbyVision.Coefficient.readSigned`, `DolbyVision.Coefficient.putSigned` — coefficients of a
  curve;
* `DolbyVision.Coefficient.readUnsigned`, `DolbyVision.Coefficient.putUnsigned` — coefficients of
  the inverse quantization.
-/

import DolbyVision.Bits.Words
import DolbyVision.Bits.Writer
import DolbyVision.Metadata.Header

set_option relaxedAutoImplicit false
set_option autoImplicit false

namespace DolbyVision.Coefficient

open Bits

/-- The number of fraction bits. -/
def fractionWidth (h : Header) : Nat :=
  h.coefficientLog2Denominator.toNat

/-- The number of units of the last fraction bit in one, as a floating-point number. -/
def scale (h : Header) : Except Fault Float := do
  return (UInt64.ofNat (← Checked.bit 64 (fractionWidth h))).toFloat

/-- Reads a binary32 number and gives it in units of the last fraction bit. -/
def readScaled (h : Header) : BitParser Float := do
  let value := Float32.ofBits (← Reader.u32 32)
  return value.toFloat * (← scale h)

/-- Writes a number of units of the last fraction bit as a binary32 number. -/
def putScaled (w : Writer) (h : Header) (units : Float) : Except Fault Writer := do
  w.put 32 (units / (← scale h)).toFloat32.toBits.toNat

/-- Reads a coefficient of a curve. -/
def readSigned (h : Header) : BitParser Int64 := do
  if h.coefficientType = Header.fixedPoint then
    let whole ← Reader.signedCode
    let fraction ← Reader.bits (fractionWidth h)
    let amount ← Checked.shiftAmount 64 (fractionWidth h)
    return (Int64.ofInt whole <<< Int64.ofNat amount) + Int64.ofNat fraction
  else
    return (← readScaled h).toInt64

/-- Reads a coefficient of the inverse quantization. -/
def readUnsigned (h : Header) : BitParser UInt64 := do
  if h.coefficientType = Header.fixedPoint then
    let whole ← Reader.unsignedCode
    let fraction ← Reader.bits (fractionWidth h)
    let amount ← Checked.shiftAmount 64 (fractionWidth h)
    return (UInt64.ofNat whole <<< UInt64.ofNat amount) + UInt64.ofNat fraction
  else
    return (← readScaled h).toUInt64

/-- Writes a coefficient of a curve.  A fixed-point coefficient is refused if its integer part has
no code that can be read.  The bit above its fraction stays clear of the sign. -/
def putSigned (w : Writer) (h : Header) (coefficient : Int64) : Except Fault Writer := do
  if h.coefficientType = Header.fixedPoint then
    let unit ← Checked.bit 63 (fractionWidth h)
    let whole := coefficient.toInt / unit
    let fraction := (coefficient.toInt % unit).toNat
    if whole.natAbs < 1 <<< 31 then
      let w ← w.putSignedCode whole
      w.put (fractionWidth h) fraction
    else
      throw (.invalidArgument .reshapingCoefficientRange)
  else
    putScaled w h coefficient.toFloat

/-- Writes a coefficient of the inverse quantization.  A fixed-point coefficient is refused if its
integer part has no code that can be read. -/
def putUnsigned (w : Writer) (h : Header) (coefficient : UInt64) : Except Fault Writer := do
  if h.coefficientType = Header.fixedPoint then
    let unit ← Checked.bit 64 (fractionWidth h)
    let whole := coefficient.toNat / unit
    let fraction := coefficient.toNat % unit
    if whole < (1 <<< 32) - 1 then
      let w ← w.putUnsignedCode whole
      w.put (fractionWidth h) fraction
    else
      throw (.invalidArgument .nlqCoefficientRange)
  else
    putScaled w h coefficient.toFloat

end DolbyVision.Coefficient
