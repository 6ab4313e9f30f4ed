/-
**What a stored block leaves in the pixels.**

A block goes into eight rows of eight pixels.  If rows do not overlap, a pixel of the block is
written once, so that it shows what its coefficient and the pixel before it give, and no other pixel
is written at all.  This holds of the forms that go row by row and of those that work on strips:
both place the same rows one after the other, and what is seen where rows were placed is a fact
about rows alone (`getElem?_foldl_inside`, `getElem?_foldl_outside`).

The values are integers here and words of 32 bits in a kernel.  None of them leaves such a word, not
even at the ends of the range of coefficients.

Main definitions:

* `DolbyVision.Kernel.plainValue`, `middleValue`, `sumValue` — the value that a kernel computes from
  a coefficient and the pixel in its place;
* `DolbyVision.Kernel.StoredBlock` — pixels after a block was stored, described pixel by pixel.

Main results:

* `DolbyVision.Kernel.toNat_clamp` — the nearest pixel to a value;
* `DolbyVision.Kernel.storedBlock_placedRows` — rows that do not overlap are stored pixel by pixel;
* `DolbyVision.Kernel.stores_block` — **every kernel stores its values and nothing else**.
-/

import DolbyVision.Proofs.Kernel.TransformOutput
import Mathlib.Algebra.Group.Int.Defs

set_option relaxedAutoImplicit false
set_option autoImplicit false

namespace DolbyVision.Kernel

variable {block : Block64} {pixels : List UInt8} {stride : Nat} {value : Int16 → UInt8 → Int}

/-! ### Values -/

/-- The value of a coefficient that is stored as it is. -/
def plainValue (c : Int16) (_ : UInt8) : Int := c.toInt

/-- The value of a coefficient that is stored around the middle of the range. -/
def middleValue (c : Int16) (_ : UInt8) : Int := c.toInt + 128

/-- The value of a coefficient that is added to a pixel. -/
def sumValue (c : Int16) (old : UInt8) : Int := (old.toNat : Int) + c.toInt

/-- The nearest pixel to a value. -/
theorem toNat_clamp (v : Int) : ((clamp v).toNat : Int) = max 0 (min v 255) := by
  have hsmall : (min (max v 0) 255).toNat < 2 ^ 8 := by omega
  rw [clamp, UInt8.toNat_ofNat', Nat.mod_eq_of_lt hsmall]
  omega

/-- No value leaves a word of 32 bits. -/
def FitsWord (value : Int16 → UInt8 → Int) : Prop :=
  ∀ c old, -2 ^ 31 ≤ value c old ∧ value c old < 2 ^ 31

theorem fitsWord_plainValue : FitsWord plainValue := by
  intro c old
  have hlo := c.le_toInt
  have hhi := c.toInt_lt
  unfold plainValue
  omega

theorem fitsWord_middleValue : FitsWord middleValue := by
  intro c old
  have hlo := c.le_toInt
  have hhi := c.toInt_lt
  unfold middleValue
  omega

theorem fitsWord_sumValue : FitsWord sumValue := by
  intro c old
  have hlo := c.le_toInt
  have hhi := c.toInt_lt
  have hold := old.toNat_lt
  unfold sumValue
  omega

/-! ### Pixels -/

/-- Pixels after a block was stored: in its eight rows of eight, the nearest pixel to the value of
the coefficient and the pixel that was there, and everywhere else the pixel that was there. -/
structure StoredBlock (value : Int16 → UInt8 → Int) (block : Block64) (stride : Nat)
    (before after : List UInt8) : Prop where
  length : after.length = before.length
  inside : ∀ row < 8, ∀ col < 8, ∃ c old new,
    block[8 * row + col]? = some c ∧ before[row * stride + col]? = some old ∧
      after[row * stride + col]? = some new ∧ (new.toNat : Int) = max 0 (min (value c old) 255)
  outside : ∀ i, (∀ row < 8, ∀ col < 8, i ≠ row * stride + col) → after[i]? = before[i]?

/-- A coefficient of a row. -/
theorem getElem?_coefficientRow (block : Block64) {row col : Nat} (hcol : col < side) :
    (coefficientRow block row)[col]? = block[8 * row + col]? := by
  rw [coefficientRow, List.getElem?_take_of_lt hcol, List.getElem?_drop,
    ← Vector.getElem?_toList]
  rfl

/-- **Rows that do not overlap are stored pixel by pixel.** -/
theorem storedBlock_placedRows {rowOf : Nat → List UInt8} (hapart : side ≤ stride)
    (hfits : span stride ≤ pixels.length) (hwidth : ∀ r < side, (rowOf r).length = side)
    (hrow : ∀ r < side, ∀ col < side, ∀ c old, (coefficientRow block r)[col]? = some c →
      (taken pixels (r * stride) side)[col]? = some old →
      (rowOf r)[col]? = some (clamp (value c old))) :
    StoredBlock value block stride pixels (placedRows (fun _ r => rowOf r) pixels stride) := by
  have hplace : ∀ r ∈ List.range side, r * stride + (rowOf r).length ≤ pixels.length := by
    intro r hr
    rw [hwidth r (List.mem_range.1 hr)]
    exact (rows_fit_iff stride _).2 hfits r hr
  have hbehind : (List.range side).Pairwise fun r r' =>
      r * stride + (rowOf r).length ≤ r' * stride := by
    refine (rows_apart hapart).imp_of_mem fun {r r'} hr _ hle => ?_
    rwa [hwidth r (List.mem_range.1 hr)]
  constructor
  · exact length_foldl_placed hplace
  · intro row (hrowlt : row < side) col (hcollt : col < side)
    have hr : row ∈ List.range side := List.mem_range.2 hrowlt
    have hlast := (rows_fit_iff stride _).2 hfits row hr
    have hpixel : row * stride + col < pixels.length := by omega
    have hcoefficient : 8 * row + col < 64 := by unfold side at hrowlt hcollt; omega
    have hc : block[8 * row + col]? = some block[8 * row + col] :=
      Vector.getElem?_eq_getElem hcoefficient
    have hold : pixels[row * stride + col]? = some pixels[row * stride + col] :=
      List.getElem?_eq_getElem hpixel
    refine ⟨_, _, _, hc, hold, ?_, toNat_clamp _⟩
    rw [placedRows,
      getElem?_foldl_inside hplace hbehind hr (by rwa [hwidth row hrowlt])]
    refine hrow row hrowlt col hcollt _ _ ?_ ?_
    · rw [getElem?_coefficientRow block hcollt, hc]
    · rw [getElem?_taken, if_pos hcollt, hold]
  · intro i hi
    refine getElem?_foldl_outside hplace fun r hr => ?_
    rw [hwidth r (List.mem_range.1 hr)]
    by_contra hin
    exact hi r (List.mem_range.1 hr) (i - r * stride) (by unfold side at hin; omega) (by omega)

/-! ### Kernels -/

/-- A kernel that is applied to pixels in which the block has room, with rows at a given distance,
stores its values. -/
def Stores (kernel : Block64 → List UInt8 → Nat → Option (List UInt8))
    (value : Int16 → UInt8 → Int) (stride : Nat) : Prop :=
  ∀ block pixels, span stride ≤ pixels.length →
    ∃ after, kernel block pixels stride = some after ∧ StoredBlock value block stride pixels after

/-- Rows that do not depend on what they replace. -/
theorem stores_map (f : Int16 → Int) (hapart : side ≤ stride) :
    Stores (storeRows fun coefficients _ => coefficients.map fun c => clamp (f c))
      (fun c _ => f c) stride := by
  intro block pixels hfits
  have hwidth : ∀ (coefficients : List Int16) (old : List UInt8), coefficients.length = side →
      old.length = side → (coefficients.map fun c => clamp (f c)).length = side := by
    intro coefficients _ hc _
    rw [List.length_map, hc]
  have hstored := storeRows_eq hwidth block pixels stride
  rw [if_pos hfits] at hstored
  refine ⟨_, hstored, storedBlock_placedRows hapart hfits (fun r hr => ?_) ?_⟩
  · rw [List.length_map, length_coefficientRow block hr]
  · intro r _ col _ c old hc _
    rw [List.getElem?_map, hc]
    rfl

theorem stores_addStrip (hapart : side ≤ stride) : Stores addStrip sumValue stride := by
  intro block pixels hfits
  have hstored := addStrip_eq block pixels stride
  rw [if_pos hfits] at hstored
  refine ⟨_, hstored, storedBlock_placedRows hapart hfits (fun r hr => ?_) ?_⟩
  · exact length_addRow (length_coefficientRow block hr)
      (length_taken ((rows_fit_iff stride _).2 hfits r (List.mem_range.2 hr)))
  · intro r _ col _ c old hc hold
    rw [addRow, List.getElem?_zipWith, hc, hold]
    rfl

/-- A kernel stores what another form of it does. -/
theorem Stores.congr {strip plain : Block64 → List UInt8 → Nat → Option (List UInt8)}
    (h : Stores plain value stride)
    (hsame : ∀ block pixels, strip block pixels stride = plain block pixels stride) :
    Stores strip value stride := by
  intro block pixels hfits
  rw [hsame]
  exact h block pixels hfits

/-- **Every kernel stores its values and nothing else**, if rows do not overlap: a pixel of the
block becomes the nearest pixel to its value, which is computed without leaving a word of 32 bits,
and all other pixels stay as they were. -/
theorem stores_block (hapart : 8 ≤ stride) (block : Block64)
    (hfits : 7 * stride + 8 ≤ pixels.length) :
    ∀ k ∈ [(put, plainValue), (putStrip, plainValue), (putSigned, middleValue),
        (putSignedStrip, middleValue), (add, sumValue), (addStrip, sumValue)],
      FitsWord k.2 ∧ ∃ after, k.1 block pixels stride = some after ∧
        StoredBlock k.2 block stride pixels after := by
  have hput : Stores put plainValue stride := stores_map Int16.toInt hapart
  have hsigned : Stores putSigned middleValue stride :=
    stores_map (fun c => c.toInt + middle) hapart
  have hadd : Stores addStrip sumValue stride := stores_addStrip hapart
  intro k hk
  simp only [List.mem_cons, List.not_mem_nil, or_false] at hk
  rcases hk with rfl | rfl | rfl | rfl | rfl | rfl
  · exact ⟨fitsWord_plainValue, hput block pixels hfits⟩
  · exact ⟨fitsWord_plainValue, hput.congr (fun _ _ => storeStrip_map ..) block pixels hfits⟩
  · exact ⟨fitsWord_middleValue, hsigned block pixels hfits⟩
  · exact ⟨fitsWord_middleValue, hsigned.congr (fun _ _ => storeStrip_map ..) block pixels hfits⟩
  · have hplain : Stores add sumValue stride :=
      hadd.congr fun block pixels => (addStrip_eq_add block pixels hapart).symm
    exact ⟨fitsWord_sumValue, hplain block pixels hfits⟩
  · exact ⟨fitsWord_sumValue, hadd block pixels hfits⟩

/-- Coefficients at both ends of their range. -/
def endBlock : Block64 :=
  Vector.ofFn fun i => if i.val % 2 = 0 then Int16.minValue else Int16.maxValue

/-- Coefficients at both ends of their range are added to gray pixels, with two pixels between the
rows. -/
theorem stores_block_ends :
    8 ≤ 10 ∧ 7 * 10 + 8 ≤ (List.replicate 80 (100 : UInt8)).length ∧
      ∃ after, add endBlock (List.replicate 80 100) 10 = some after ∧
        StoredBlock sumValue endBlock 10 (List.replicate 80 100) after := by
  have hfits : 7 * 10 + 8 ≤ (List.replicate 80 (100 : UInt8)).length := by decide
  exact ⟨by decide, hfits, (stores_block (by decide) endBlock hfits (add, sumValue) (by simp)).2⟩

end DolbyVision.Kernel
