/-
**Color descriptions of a video stream.**

A stream says by three code points which primaries, transfer characteristics and matrix its samples
use.  The code points are those of ITU-T H.273; a reserved code counts as unspecified.

Main definitions:

* `DolbyVision.Primaries`, `DolbyVision.Transfer`, `DolbyVision.Matrix` — the meanings of the codes;
* `DolbyVision.Primaries.ofCode`, `DolbyVision.Transfer.ofCode`, `DolbyVision.Matrix.ofCode` — the
  meaning of a code.
-/

set_option relaxedAutoImplicit false
set_option autoImplicit false

namespace DolbyVision

/-- Color primaries. -/
inductive Primaries where
  | bt709
  | unspecified
  | bt470M
  | bt470Bg
  | smpte170M
  | smpte240M
  | film
  | bt2020
  | smpte428
  | smpte431
  | smpte432
  | ebu3213
  deriving DecidableEq

instance : Inhabited Primaries := ⟨.unspecified⟩

/-- The primaries with a given code. -/
def Primaries.ofCode : Nat → Primaries
  | 1 => bt709
  | 4 => bt470M
  | 5 => bt470Bg
  | 6 => smpte170M
  | 7 => smpte240M
  | 8 => film
  | 9 => bt2020
  | 10 => smpte428
  | 11 => smpte431
  | 12 => smpte432
  | 22 => ebu3213
  | _ => unspecified

/-- Transfer characteristics. -/
inductive Transfer where
  | bt709
  | unspecified
  | gamma22
  | gamma28
  | smpte170M
  | smpte240M
  | linear
  | iec61966
  | bt1361
  | srgb
  | bt2020Ten
  | bt2020Twelve
  /-- The perceptual quantizer of SMPTE ST 2084. -/
  | pq
  | smpte428
  /-- The hybrid log-gamma of ARIB STD-B67. -/
  | hlg
  deriving DecidableEq

instance : Inhabited Transfer := ⟨.unspecified⟩

/-- The transfer characteristics with a given code. -/
def Transfer.ofCode : Nat → Transfer
  | 1 => bt709
  | 4 => gamma22
  | 5 => gamma28
  | 6 => smpte170M
  | 7 => smpte240M
  | 8 => linear
  | 11 => iec61966
  | 12 => bt1361
  | 13 => srgb
  | 14 => bt2020Ten
  | 15 => bt2020Twelve
  | 16 => pq
  | 17 => smpte428
  | 18 => hlg
  | _ => unspecified

/-- Matrix coefficients between RGB and luma with chroma. -/
inductive Matrix where
  | rgb
  | bt709
  | unspecified
  | fcc
  | bt470Bg
  | smpte170M
  | smpte240M
  | yCgCo
  /-- BT.2020 with non-constant luminance. -/
  | bt2020Ncl
  /-- BT.2020 with constant luminance. -/
  | bt2020Cl
  | smpte2085
  | chromaDerivedNcl
  | chromaDerivedCl
  | iCtCp
  /-- The opponent color space of profile 5. -/
  | iptC2
  deriving DecidableEq

instance : Inhabited Matrix := ⟨.unspecified⟩

/-- The matrix coefficients with a given code. -/
def Matrix.ofCode : Nat → Matrix
  | 0 => rgb
  | 1 => bt709
  | 4 => fcc
  | 5 => bt470Bg
  | 6 => smpte170M
  | 7 => smpte240M
  | 8 => yCgCo
  | 9 => bt2020Ncl
  | 10 => bt2020Cl
  | 11 => smpte2085
  | 12 => chromaDerivedNcl
  | 13 => chromaDerivedCl
  | 14 => iCtCp
  | 15 => iptC2
  | _ => unspecified

end DolbyVision
