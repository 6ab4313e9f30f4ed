/-
**Which pixels a table loads.**

A table for loading blocks of pixels is made for pixels of a given depth.  Two choices depend on the
depth: which kernel a new table has, and whether an initializer may replace it by a faster one.  The
first one goes by a list of depths and the second one by a limit, and the list does not have all
depths above the limit.

What a table does is an invariant.  The portable table has it, an initializer keeps it, since it
installs kernels only that load what the kernels before them did, and so it holds however often a
table is initialized and whatever the processor can do.  It shows that samples are loaded from the
words that they are stored in **for exactly the depths up to the limit and those of the list**.

Main definitions:

* `DolbyVision.Kernel.PixelBlockTable.initArmAll` — one initialization after the other;
* `DolbyVision.Kernel.PixelBlockTable.Serves` — what the slots of a table do;
* `DolbyVision.Kernel.loadSamples` — samples of a given depth, as they are stored.

Main results:

* `DolbyVision.Kernel.PixelBlockTable.Serves.initArm` — **an initializer keeps what the slots do**;
* `DolbyVision.Kernel.PixelBlockTable.serves_initArmAll` — so does any number of them;
* `DolbyVision.Kernel.PixelBlockTable.loads_samples_iff` — **what every table loads**, and for which
  depths that is samples of the depth.
-/

import DolbyVision.Kernel.Dispatch
import DolbyVision.Proofs.Kernel.Strips

set_option relaxedAutoImplicit false
set_option autoImplicit false

namespace DolbyVision.Kernel

/-! ### Kernels -/

/-- Pixels are loaded alike in pairs of rows and row by row. -/
theorem LoadKernel.run_bytesPaired : LoadKernel.bytesPaired.run = loadBytes := by
  funext pixels stride
  exact byPairs_eq fun row => byteRow pixels (row * stride)

/-- All kernels that load a difference load the same one. -/
theorem DifferenceKernel.run_eq (kernel : DifferenceKernel) : kernel.run = loadDifference := by
  cases kernel with
  | rows => rfl
  | pairs =>
    funext a b stride
    exact byPairs_eq fun row => differenceRow a b (row * stride)

/-- Samples of a given depth: those deeper than eight bits are stored in words of 16 bits. -/
def loadSamples (bits : Nat) : List UInt8 → Nat → Option (List Int16) :=
  if 8 < bits then loadWords else loadBytes

/-- Sixteen bytes hold eight words, whose values no byte has. -/
theorem loadWords_ne_loadBytes : loadWords ≠ loadBytes := by
  intro h
  have hsixteen := congrFun₂ h (List.replicate 16 1) 0
  revert hsixteen
  decide

namespace PixelBlockTable

variable {t : PixelBlockTable} {bits : Nat}

/-! ### What the slots do -/

/-- What the slots of a table for pixels of a given depth do.  The slots for pixels that are not
aligned hold the same kernels as the others. -/
structure Serves (t : PixelBlockTable) (bits : Nat) : Prop where
  loadUnaligned : t.loadUnaligned = t.load
  differenceUnaligned : t.differenceUnaligned = t.difference
  load : t.load.run = if bits ∈ wordDepths then loadWords else loadBytes
  difference : t.difference.run = loadDifference

theorem serves_portable (bits : Nat) : (portable bits).Serves bits where
  loadUnaligned := rfl
  differenceUnaligned := rfl
  load := by
    unfold portable
    by_cases hword : bits ∈ wordDepths
    · rw [if_pos hword, if_pos hword]
      rfl
    · rw [if_neg hword, if_neg hword]
      rfl
  difference := DifferenceKernel.run_eq _

/-- Pixels of up to eight bits are not loaded from words. -/
theorem not_mem_wordDepths (h : isDeep bits = false) : bits ∉ wordDepths := by
  have hle : bits ≤ 8 := by simpa [isDeep] using h
  intro hmem
  simp only [wordDepths, List.mem_cons, List.not_mem_nil, or_false] at hmem
  omega

/-- **An initializer keeps what the slots do.** -/
theorem Serves.initArm (h : t.Serves bits) (flags : CpuFlags) :
    (t.initArm flags (isDeep bits)).Serves bits := by
  unfold PixelBlockTable.initArm
  by_cases hneon : flags.contains .neon = true
  · rw [if_pos hneon]
    cases hdeep : isDeep bits with
    | true =>
      exact {
        loadUnaligned := h.loadUnaligned
        differenceUnaligned := rfl
        load := h.load
        difference := DifferenceKernel.run_eq _ }
    | false =>
      exact {
        loadUnaligned := rfl
        differenceUnaligned := rfl
        load := by
          rw [if_neg (not_mem_wordDepths hdeep)]
          exact LoadKernel.run_bytesPaired
        difference := DifferenceKernel.run_eq _ }
  · rw [if_neg hneon]
    exact h

theorem serves_forHost (host : Host) (flags : CpuFlags) (bits : Nat) :
    (forHost host flags bits).Serves bits := by
  cases host with
  | arm => exact (serves_portable bits).initArm flags
  | riscv => exact serves_portable bits
  | other => exact serves_portable bits

/-! ### Any number of initializations -/

/-- A table that is initialized for one processor after the other, always for the same depth. -/
def initArmAll (t : PixelBlockTable) (bits : Nat) (inits : List CpuFlags) : PixelBlockTable :=
  inits.foldl (fun t flags => t.initArm flags (isDeep bits)) t

theorem serves_initArmAll (h : t.Serves bits) (inits : List CpuFlags) :
    (t.initArmAll bits inits).Serves bits := by
  unfold initArmAll
  induction inits generalizing t with
  | nil => exact h
  | cons flags inits ih => exact ih (h.initArm flags)

/-! ### Depths -/

/-- What the slots load is samples of the depth, if the depth is up to the limit or in the list. -/
theorem Serves.load_samples_iff (h : t.Serves bits) :
    t.load.run = loadSamples bits ↔ bits ≤ 8 ∨ bits ∈ wordDepths := by
  rw [h.load, loadSamples]
  by_cases hword : bits ∈ wordDepths
  · have hdeep : 8 < bits := by
      by_contra hle
      exact not_mem_wordDepths (by simpa [isDeep] using hle) hword
    simp [hword, hdeep]
  · by_cases hdeep : 8 < bits
    · simp [hword, hdeep, loadWords_ne_loadBytes.symm]
    · simp [hword, hdeep, Nat.le_of_not_lt hdeep]

/-- **What every table loads.**  However often a table is initialized, whatever the processor can
do, the slots for pixels that are not aligned hold the same kernels as the others, differences are
those of pixels of eight bits, and pixels are loaded from words for the depths of the list and from
bytes for all others.  That is samples of the depth for the depths up to eight bits and those of the
list, and for no others. -/
theorem loads_samples_iff (host : Host) (flags : CpuFlags) (bits : Nat) (inits : List CpuFlags) :
    let t := (forHost host flags bits).initArmAll bits inits
    t.loadUnaligned = t.load ∧ t.differenceUnaligned = t.difference ∧
      t.difference.run = loadDifference ∧
      (t.load.run = if bits ∈ [9, 10, 12, 14] then loadWords else loadBytes) ∧
      (t.load.run = loadSamples bits ↔ bits ≤ 8 ∨ bits ∈ [9, 10, 12, 14]) := by
  have hserves := serves_initArmAll (serves_forHost host flags bits) inits
  exact ⟨hserves.loadUnaligned, hserves.differenceUnaligned, hserves.difference, hserves.load,
    hserves.load_samples_iff⟩

/-- A table for pixels of eleven bits loads bytes. -/
theorem not_loads_samples :
    ¬ ∀ (host : Host) (flags : CpuFlags) (bits : Nat) (inits : List CpuFlags),
      let t := (forHost host flags bits).initArmAll bits inits
      t.loadUnaligned = t.load ∧ t.differenceUnaligned = t.difference ∧
        t.difference.run = loadDifference ∧ t.load.run = loadSamples bits := by
  intro h
  have heleven := (h .other ⟨0⟩ 11 []).2.2.2
  exact absurd heleven.symm loadWords_ne_loadBytes

end PixelBlockTable

end DolbyVision.Kernel
