/-
**Products of spectra.**

A filter in the frequency domain multiplies spectra bin by bin and adds up the products.  A spectrum
holds complex bins, the real part of each in front of the imaginary part, and a last bin that is
real.

Main definitions:

* `DolbyVision.Kernel.addProduct` — the product of two spectra on top of a sum, bin by bin;
* `DolbyVision.Kernel.addProductStrips` — the same in strips, with real and imaginary parts apart.
-/

import DolbyVision.Kernel.Binary32
import DolbyVision.Kernel.Segment

set_option relaxedAutoImplicit false
set_option autoImplicit false

namespace DolbyVision.Kernel

variable {F : Type} [Binary32 F]

open Binary32

/-- The real part of a sum and a product of complex numbers. -/
def productRe (sum tRe tIm cRe cIm : F) : F :=
  add sum (sub (mul tRe cRe) (mul tIm cIm))

/-- The imaginary part of a sum and a product of complex numbers. -/
def productIm (sum tRe tIm cRe cIm : F) : F :=
  add sum (add (mul tRe cIm) (mul tIm cRe))

/-- Adds the products of complex bins to a sum, as far as all lists reach. -/
def addBins : List F → List F → List F → List F
  | sRe :: sIm :: s, tRe :: tIm :: t, cRe :: cIm :: c =>
    productRe sRe tRe tIm cRe cIm :: productIm sIm tRe tIm cRe cIm :: addBins s t c
  | s, _, _ => s

/-- Adds the products of the last bins. -/
def addLast (s t c : List F) : List F :=
  List.zipWith add s (List.zipWith mul t c)

/-- Whether three spectra have `bins` complex bins and a last one.  Twice the number of bins is not
reduced to a word: a doubling that overflows counts as a fault, as if the spectra were too short.
If it wrapped instead, `2 ^ 63` bins would be found in every spectrum that is not empty. -/
def haveBins (sum t c : List F) (bins : Nat) : Bool :=
  2 * bins < sum.length && 2 * bins < t.length && 2 * bins < c.length

/-- Adds the product of two spectra of `bins` complex bins to a sum.  Nothing results if one of the
three is too short. -/
def addProduct (sum t c : List F) (bins : Nat) : Option (List F) :=
  let n := 2 * bins
  if haveBins sum t c bins then
    some (addBins (sum.take n) (t.take n) (c.take n) ++
      addLast ((sum.drop n).take 1) ((t.drop n).take 1) ((c.drop n).take 1) ++ sum.drop (n + 1))
  else none

/-- The real parts of a list of complex bins. -/
def realParts : List F → List F
  | re :: _ :: bins => re :: realParts bins
  | _ => []

/-- The imaginary parts of a list of complex bins. -/
def imaginaryParts : List F → List F
  | _ :: im :: bins => im :: imaginaryParts bins
  | _ => []

/-- Real and imaginary parts put together into complex bins. -/
def interleave : List F → List F → List F
  | re :: res, im :: ims => re :: im :: interleave res ims
  | _, _ => []

/-- Applies an operation on five numbers to five lists. -/
def zipFive (f : F → F → F → F → F → F) : List F → List F → List F → List F → List F → List F
  | a :: as, b :: bs, c :: cs, d :: ds, e :: es => f a b c d e :: zipFive f as bs cs ds es
  | _, _, _, _, _ => []

/-- Adds the products of a strip of complex bins to a sum, the real parts first. -/
def addStripBins (s t c : List F) : List F :=
  interleave
    (zipFive productRe (realParts s) (realParts t) (imaginaryParts t) (realParts c)
      (imaginaryParts c))
    (zipFive productIm (imaginaryParts s) (realParts t) (imaginaryParts t) (realParts c)
      (imaginaryParts c))

/-- The number of complex bins of a strip. -/
def stripBins : Nat := 4

/-- Adds the product of two spectra of `bins` complex bins to a sum, strip by strip.  Nothing
results if one of the three is too short. -/
def addProductStrips (sum t c : List F) (bins : Nat) : Option (List F) :=
  let n := 2 * bins
  let cut (x : List F) := strips (2 * stripBins) (x.take n)
  if haveBins sum t c bins then
    let body := List.zipWith (fun s tc => addStripBins s tc.1 tc.2) (cut sum) ((cut t).zip (cut c))
    some (body.flatten ++
      addLast ((sum.drop n).take 1) ((t.drop n).take 1) ((c.drop n).take 1) ++ sum.drop (n + 1))
  else none

end DolbyVision.Kernel
