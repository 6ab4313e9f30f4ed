/-
**Choosing kernels.**

A table names the kernel that is used for each operation.  A new table has the kernels that work
everywhere; an initializer replaces those for which the processor has something better.  A new table
is initialized at once on the processors that its initializer is for.

Main definitions:

* `DolbyVision.Kernel.Host` — the kind of a processor;
* `DolbyVision.Kernel.PixelBlockTable`, `TransformTable`, `PredictionTable`, `QuantizationTable`,
  `SpectrumTable` — the tables, each with `forHost` and the initializer of its family.
-/

import DolbyVision.Cpu
import DolbyVision.Kernel.Prediction
import DolbyVision.Kernel.Quantization
import DolbyVision.Kernel.Spectrum
import DolbyVision.Kernel.TransformOutput

set_option relaxedAutoImplicit false
set_option autoImplicit false

namespace DolbyVision.Kernel

/-- The kinds of processors. -/
inductive Host where
  | arm
  | riscv
  | other
  deriving DecidableEq, Inhabited

/-! ### Loading blocks -/

/-- The kernels that load a block of pixels. -/
inductive LoadKernel where
  | bytes
  | words
  | bytesPaired
  deriving DecidableEq, Inhabited

/-- What a kernel loads. -/
def LoadKernel.run : LoadKernel → List UInt8 → Nat → Option (List Int16)
  | bytes => loadBytes
  | words => loadWords
  | bytesPaired => loadBytesPaired

/-- The kernels that load the difference of two blocks. -/
inductive DifferenceKernel where
  | rows
  | pairs
  deriving DecidableEq, Inhabited

/-- What a kernel loads. -/
def DifferenceKernel.run : DifferenceKernel → List UInt8 → List UInt8 → Nat → Option (List Int16)
  | rows => loadDifference
  | pairs => loadDifferencePaired

/-- The kernels for loading blocks, with those for pixels that are not aligned. -/
structure PixelBlockTable where
  load : LoadKernel
  loadUnaligned : LoadKernel
  difference : DifferenceKernel
  differenceUnaligned : DifferenceKernel
  deriving DecidableEq, Inhabited

namespace PixelBlockTable

/-- Whether pixels of a given depth are deeper than eight bits. -/
def isDeep (bits : Nat) : Bool := 8 < bits

/-- The depths of pixels that are loaded from words of 16 bits. -/
def wordDepths : List Nat := [9, 10, 12, 14]

/-- The kernels that work everywhere, for pixels of a given depth. -/
def portable (bits : Nat) : PixelBlockTable :=
  let load : LoadKernel := if bits ∈ wordDepths then .words else .bytes
  { load, loadUnaligned := load, difference := .rows, differenceUnaligned := .rows }

/-- Installs the kernels for Arm.  That for loading pixels is for pixels of eight bits only. -/
def initArm (t : PixelBlockTable) (flags : CpuFlags) (deep : Bool) : PixelBlockTable :=
  if flags.contains .neon then
    let t := { t with difference := .pairs, differenceUnaligned := .pairs }
    if deep then t else { t with load := .bytesPaired, loadUnaligned := .bytesPaired }
  else t

/-- A new table for pixels of a given depth. -/
def forHost (host : Host) (flags : CpuFlags) (bits : Nat) : PixelBlockTable :=
  match host with
  | .arm => (portable bits).initArm flags (isDeep bits)
  | _ => portable bits

end PixelBlockTable

/-! ### Storing blocks -/

/-- Whether a kernel goes row by row or works on strips. -/
inductive Shape where
  | plain
  | strips
  deriving DecidableEq, Inhabited

/-- The kernels for storing blocks. -/
structure TransformTable where
  put : Shape
  putSigned : Shape
  add : Shape
  deriving DecidableEq, Inhabited

namespace TransformTable

/-- The kernels that work everywhere. -/
def portable : TransformTable := ⟨.plain, .plain, .plain⟩

/-- Installs the kernels for RISC-V, which need registers that hold a whole block. -/
def initRiscv (t : TransformTable) (flags : CpuFlags) : TransformTable :=
  if flags.contains (CpuFlags.rvvI64.union .zvl128b) then ⟨.strips, .strips, .strips⟩ else t

/-- A new table. -/
def forHost (host : Host) (flags : CpuFlags) : TransformTable :=
  if host = .riscv then portable.initRiscv flags else portable

end TransformTable

/-! ### Lossless prediction -/

/-- The kernels for lossless prediction. -/
structure PredictionTable where
  difference : Shape
  median : Shape
  left : Shape
  deriving DecidableEq, Inhabited

namespace PredictionTable

/-- The kernels that work everywhere. -/
def portable : PredictionTable := ⟨.plain, .plain, .plain⟩

/-- Installs the kernel for RISC-V. -/
def initRiscv (t : PredictionTable) (flags : CpuFlags) : PredictionTable :=
  if flags.contains .rvvI32 then { t with difference := .strips } else t

/-- A new table. -/
def forHost (host : Host) (flags : CpuFlags) : PredictionTable :=
  if host = .riscv then portable.initRiscv flags else portable

end PredictionTable

/-! ### Quantization -/

/-- The kernels for quantization. -/
structure QuantizationTable where
  powers : Shape
  quantize : Shape
  deriving DecidableEq, Inhabited

namespace QuantizationTable

/-- The kernels that work everywhere. -/
def portable : QuantizationTable := ⟨.plain, .plain⟩

/-- Installs the kernels for RISC-V. -/
def initRiscv (t : QuantizationTable) (flags : CpuFlags) : QuantizationTable :=
  if flags.contains .rvvF32 && flags.contains .rvb then ⟨.strips, .strips⟩ else t

/-- A new table. -/
def forHost (host : Host) (flags : CpuFlags) : QuantizationTable :=
  if host = .riscv then portable.initRiscv flags else portable

end QuantizationTable

/-! ### Products of spectra -/

/-- The kernel for products of spectra. -/
structure SpectrumTable where
  addProduct : Shape
  deriving DecidableEq, Inhabited

namespace SpectrumTable

/-- The kernel that works everywhere. -/
def portable : SpectrumTable := ⟨.plain⟩

/-- Installs the kernel for RISC-V. -/
def initRiscv (t : SpectrumTable) (flags : CpuFlags) : SpectrumTable :=
  if flags.contains .rvvF64 && flags.contains .rvb then ⟨.strips⟩ else t

/-- A new table. -/
def forHost (host : Host) (flags : CpuFlags) : SpectrumTable :=
  if host = .riscv then portable.initRiscv flags else portable

end SpectrumTable

end DolbyVision.Kernel
