/-
**Capabilities of a processor.**

Which kernels a program uses depends on the instruction set extensions of the processor.  They are a
set of flags, which is found out once and which a program may override.

Main definitions:

* `DolbyVision.CpuFlags` — a set of extensions;
* `DolbyVision.CpuFlags.known`, `DolbyVision.CpuFlags.names` — the extensions that have a name;
* `DolbyVision.CpuOverride` — an override, or none.
-/

set_option relaxedAutoImplicit false
set_option autoImplicit false

namespace DolbyVision

/-- A set of instruction set extensions, as the bits of a word. -/
structure CpuFlags where
  bits : UInt64
  deriving DecidableEq, Inhabited

namespace CpuFlags

/-- The set of the extension with a given bit. -/
def ofBit (n : Nat) : CpuFlags := ⟨1 <<< UInt64.ofNat n⟩

/-- The extensions with a name, and their bits. -/
def known : List (Nat × String) :=
  [(0, "ARMV8"), (1, "NEON"), (2, "DOTPROD"), (3, "I8MM"),
    (8, "SSE2"), (9, "SSSE3"), (10, "SSE4_1"), (11, "AVX2"),
    (16, "RVI"), (17, "RVF"), (18, "RVD"), (19, "RVB"), (20, "RVV_I32"), (21, "RVV_F32"),
    (22, "RVV_I64"), (23, "RVV_F64"), (24, "RV_ZVL128B")]

/-- Vector instructions of Arm. -/
def neon : CpuFlags := ofBit 1

/-- Bit manipulation of RISC-V. -/
def rvb : CpuFlags := ofBit 19

/-- Vector instructions of RISC-V on integers of up to 32 bits. -/
def rvvI32 : CpuFlags := ofBit 20

/-- Vector instructions of RISC-V on binary32 numbers. -/
def rvvF32 : CpuFlags := ofBit 21

/-- Vector instructions of RISC-V on integers of 64 bits. -/
def rvvI64 : CpuFlags := ofBit 22

/-- Vector instructions of RISC-V on binary64 numbers. -/
def rvvF64 : CpuFlags := ofBit 23

/-- Vector registers of RISC-V of at least 128 bits. -/
def zvl128b : CpuFlags := ofBit 24

/-- The extensions of either set. -/
def union (a b : CpuFlags) : CpuFlags := ⟨a.bits ||| b.bits⟩

/-- Whether all extensions of `b` are in `a`. -/
def contains (a b : CpuFlags) : Bool := a.bits &&& b.bits == b.bits

/-- All extensions with a name. -/
def all : CpuFlags :=
  known.foldl (fun flags k => flags.union (ofBit k.1)) ⟨0⟩

/-- The extensions of a set that have a name. -/
def truncate (flags : CpuFlags) : CpuFlags := ⟨flags.bits &&& all.bits⟩

/-- The names of the extensions of a set, in the order of their bits. -/
def names (flags : CpuFlags) : List String :=
  (known.filter fun k => flags.contains (ofBit k.1)).map Prod.snd

end CpuFlags

/-- The extensions that a program has pinned, or none.  The word in which all bits are set stands
for no override. -/
structure CpuOverride where
  word : UInt64
  deriving DecidableEq

namespace CpuOverride

/-- No override. -/
def none : CpuOverride := ⟨0xffffffffffffffff⟩

instance : Inhabited CpuOverride := ⟨none⟩

/-- Pins a set of extensions, or removes the override. -/
def force : Option CpuFlags → CpuOverride
  | some flags => ⟨flags.bits⟩
  | .none => none

/-- The extensions that are pinned. -/
def pinned (o : CpuOverride) : Option CpuFlags :=
  if o = none then .none else some (CpuFlags.truncate ⟨o.word⟩)

/-- The extensions that count, on a processor with the given ones. -/
def flags (o : CpuOverride) (detected : CpuFlags) : CpuFlags :=
  o.pinned.getD detected

end CpuOverride

end DolbyVision
