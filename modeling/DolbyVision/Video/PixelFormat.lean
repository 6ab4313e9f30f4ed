/-
**Memory layouts of decoded pictures.**

Main definitions:

* `DolbyVision.PixelFormat` — the layouts;
* `DolbyVision.PixelFormat.bitsPerSample` — the significant bits of a sample.
-/

set_option relaxedAutoImplicit false
set_option autoImplicit false

namespace DolbyVision

/-- A memory layout of decoded pictures.  The names give the chroma subsampling and, above eight,
the number of bits per sample. -/
inductive PixelFormat where
  | yuv420p
  | yuv422p
  | yuv444p
  | yuv420p10
  | yuv422p10
  | yuv420p12
  /-- Luma in one plane and chroma interleaved in another, ten bits in the top of sixteen. -/
  | p010
  deriving DecidableEq, Inhabited

/-- The number of significant bits of a sample. -/
def PixelFormat.bitsPerSample : PixelFormat → Nat
  | yuv420p | yuv422p | yuv444p => 8
  | yuv420p10 | yuv422p10 | p010 => 10
  | yuv420p12 => 12

end DolbyVision
