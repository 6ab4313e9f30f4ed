/-
**Storing blocks row by row and as one strip.**

Both forms of a kernel that stores a block give nothing if the last row does not lie in the pixels,
and both store the same rows where a row does not depend on what it replaces.  An addition depends
on it: row by row, a row that overlaps the one before is added to what that one has left, and as one
strip it is added to what was there at first.  So the two forms of an addition agree if rows do not
overlap, and **they differ for every distance of rows at which they do**.

Main definitions:

* `DolbyVision.Kernel.span` — the number of pixels from the first to the last one of a block;
* `DolbyVision.Kernel.placedRows` — the pixels after the rows of a block were placed;
* `DolbyVision.Kernel.addRow` — a row of coefficients on top of a row of pixels;
* `DolbyVision.Kernel.FormsAgree` — two forms of a kernel give the same.

Main results:

* `DolbyVision.Kernel.storeRows_eq`, `DolbyVision.Kernel.storeStrip_eq`,
  `DolbyVision.Kernel.addStrip_eq` — what the forms store, and when they give nothing;
* `DolbyVision.Kernel.addStrip_eq_add` — **the two forms of an addition agree where rows do not
  overlap**;
* `DolbyVision.Kernel.formsAgree_iff` — **where the two forms of a kernel agree**, and when they
  give nothing.
-/

import DolbyVision.Kernel.TransformOutput
import DolbyVision.Proofs.Kernel.Segment

set_option relaxedAutoImplicit false
set_option autoImplicit false

namespace DolbyVision.Kernel

variable {block : Block64} {pixels : List UInt8} {stride : Nat}

/-! ### Rows of a block -/

/-- The number of pixels from the first to the last one of a block. -/
def span (stride : Nat) : Nat :=
  (side - 1) * stride + side

/-- All rows lie in the pixels if the last one does. -/
theorem rows_fit_iff (stride size : Nat) :
    (∀ r ∈ List.range side, r * stride + side ≤ size) ↔ span stride ≤ size := by
  constructor
  · intro h
    exact h (side - 1) (by decide)
  · intro h r hr
    have hle : r * stride ≤ (side - 1) * stride :=
      Nat.mul_le_mul_right stride (Nat.le_sub_one_of_lt (List.mem_range.1 hr))
    unfold span at h
    omega

/-- Rows at a distance of at least their width lie one behind the other. -/
theorem rows_apart (hapart : side ≤ stride) :
    (List.range side).Pairwise fun r r' => r * stride + side ≤ r' * stride := by
  refine List.pairwise_lt_range.imp fun {r r'} hlt => ?_
  have hle := Nat.mul_le_mul_right stride (Nat.succ_le_of_lt hlt)
  rw [Nat.succ_mul] at hle
  omega

theorem length_coefficientRow (block : Block64) {r : Nat} (hr : r < side) :
    (coefficientRow block r).length = side := by
  unfold side at hr
  rw [coefficientRow, List.length_take, List.length_drop, Vector.length_toList, side]
  omega

/-- The pixels after rows of a block were placed one after the other, each of which may depend on
what is there by then. -/
def placedRows (rowOf : List UInt8 → Nat → List UInt8) (pixels : List UInt8) (stride : Nat) :
    List UInt8 :=
  (List.range side).foldl (fun pixels r => placed pixels (r * stride) (rowOf pixels r)) pixels

theorem placedRows_congr {f g : List UInt8 → Nat → List UInt8}
    (h : ∀ pixels, ∀ r ∈ List.range side, f pixels r = g pixels r) (pixels : List UInt8)
    (stride : Nat) : placedRows f pixels stride = placedRows g pixels stride :=
  List.foldl_ext _ _ _ fun pixels r hr => by rw [h pixels r hr]

/-- What is stored row by row. -/
theorem storeRows_eq {row : List Int16 → List UInt8 → List UInt8}
    (hrow : ∀ coefficients old, coefficients.length = side → old.length = side →
      (row coefficients old).length = side)
    (block : Block64) (pixels : List UInt8) (stride : Nat) :
    storeRows row block pixels stride =
      if span stride ≤ pixels.length then
        some (placedRows
          (fun pixels r => row (coefficientRow block r) (taken pixels (r * stride) side))
          pixels stride)
      else none := by
  have hwidth (pixels : List UInt8) (r : Nat) (hr : r ∈ List.range side)
      (hfits : r * stride + side ≤ pixels.length) :
      (row (coefficientRow block r) (taken pixels (r * stride) side)).length = side :=
    hrow _ _ (length_coefficientRow block (List.mem_range.1 hr)) (length_taken hfits)
  rw [storeRows, foldlM_rows (· * stride) hwidth, placedRows]
  · simp only [rows_fit_iff]
  · intro pixels r hr
    rw [segment_eq]
    split <;> rfl

/-- What is stored as one strip. -/
theorem storeStrip_eq {strip : List Int} (hstrip : strip.length = side * side)
    (pixels : List UInt8) (stride : Nat) :
    storeStrip strip pixels stride =
      if span stride ≤ pixels.length then
        some (placedRows (fun _ r => (taken strip (side * r) side).map clamp) pixels stride)
      else none := by
  have hrow (r : Nat) : ((strip.map clamp).drop (side * r)).take side =
      (taken strip (side * r) side).map clamp := by
    rw [taken, List.map_take, List.map_drop]
  have hwidth (r : Nat) (hr : r ∈ List.range side) :
      ((taken strip (side * r) side).map clamp).length = side := by
    have hlt := List.mem_range.1 hr
    unfold side at hlt hstrip
    rw [List.length_map, length_taken (by unfold side; omega)]
  rw [storeStrip]
  simp only [hrow]
  rw [foldlM_rows (· * stride) fun _ r hr _ => hwidth r hr, placedRows]
  · simp only [rows_fit_iff]
  · intro pixels r hr
    rw [store_eq, hwidth r hr]
    split <;> rfl

/-- **A row that does not depend on what it replaces** is stored alike in both forms. -/
theorem storeStrip_map (f : Int16 → Int) (block : Block64) (pixels : List UInt8) (stride : Nat) :
    storeStrip (block.toList.map f) pixels stride =
      storeRows (fun coefficients _ => coefficients.map fun c => clamp (f c)) block pixels
        stride := by
  rw [storeStrip_eq (by rw [List.length_map, Vector.length_toList]; rfl),
    storeRows_eq fun coefficients _ hc _ => by rw [List.length_map, hc]]
  have hrow (r : Nat) : (taken (block.toList.map f) (side * r) side).map clamp =
      (coefficientRow block r).map fun c => clamp (f c) := by
    rw [taken, coefficientRow, List.map_drop.symm, List.map_take.symm, List.map_map]
    rfl
  simp only [hrow]

/-! ### Additions -/

/-- A row of coefficients on top of a row of pixels. -/
def addRow (coefficients : List Int16) (old : List UInt8) : List UInt8 :=
  List.zipWith (fun c p => clamp ((p.toNat : Int) + c.toInt)) coefficients old

theorem length_addRow {coefficients : List Int16} {old : List UInt8}
    (hc : coefficients.length = side) (ho : old.length = side) :
    (addRow coefficients old).length = side := by
  rw [addRow, List.length_zipWith, hc, ho, Nat.min_self]

theorem add_eq (block : Block64) (pixels : List UInt8) (stride : Nat) :
    add block pixels stride =
      if span stride ≤ pixels.length then
        some (placedRows
          (fun pixels r => addRow (coefficientRow block r) (taken pixels (r * stride) side))
          pixels stride)
      else none :=
  storeRows_eq (fun _ _ => length_addRow) ..

/-- The rows of pixels in the place of a block. -/
def rowsOf (pixels : List UInt8) (stride : Nat) : List (List UInt8) :=
  (List.range side).map fun r => taken pixels (r * stride) side

theorem length_rowsOf (pixels : List UInt8) (stride : Nat) : (rowsOf pixels stride).length = side :=
  (List.length_map _).trans List.length_range

theorem length_of_mem_rowsOf (hspan : span stride ≤ pixels.length) :
    ∀ row ∈ rowsOf pixels stride, row.length = side := by
  intro row hrow
  obtain ⟨r, hr, rfl⟩ := List.mem_map.1 hrow
  exact length_taken ((rows_fit_iff stride _).2 hspan r hr)

/-- The strip in which coefficients and the pixels of all rows are added up. -/
def sumStrip (block : Block64) (rows : List (List UInt8)) : List Int :=
  List.zipWith (fun p c => p + c.toInt) (rows.flatten.map fun p => (p.toNat : Int)) block.toList

theorem length_sumStrip (block : Block64) (hspan : span stride ≤ pixels.length) :
    (sumStrip block (rowsOf pixels stride)).length = side * side := by
  rw [sumStrip, List.length_zipWith, List.length_map,
    length_flatten_rows (length_of_mem_rowsOf hspan), length_rowsOf, Vector.length_toList]
  rfl

/-- A row of that strip. -/
theorem taken_sumStrip (block : Block64) (hspan : span stride ≤ pixels.length) {r : Nat}
    (hr : r ∈ List.range side) :
    (taken (sumStrip block (rowsOf pixels stride)) (side * r) side).map clamp =
      addRow (coefficientRow block r) (taken pixels (r * stride) side) := by
  have hlt : r < (rowsOf pixels stride).length := by
    rw [length_rowsOf]
    exact List.mem_range.1 hr
  have hloaded := taken_flatten (length_of_mem_rowsOf hspan) hlt
  have hrow : (rowsOf pixels stride)[r] = taken pixels (r * stride) side := by
    simp only [rowsOf, List.getElem_map, List.getElem_range]
  rw [hrow, taken] at hloaded
  rw [taken, sumStrip, List.drop_zipWith, List.take_zipWith, ← List.map_drop, ← List.map_take,
    hloaded, List.map_zipWith, List.zipWith_map_left, List.zipWith_comm]
  rfl

/-- What an addition as one strip stores: rows that were computed from the pixels as they were at
first. -/
theorem addStrip_eq (block : Block64) (pixels : List UInt8) (stride : Nat) :
    addStrip block pixels stride =
      if span stride ≤ pixels.length then
        some (placedRows
          (fun _ r => addRow (coefficientRow block r) (taken pixels (r * stride) side))
          pixels stride)
      else none := by
  rw [addStrip, mapM_segment pixels (· * stride)]
  simp only [rows_fit_iff]
  by_cases hspan : span stride ≤ pixels.length
  · rw [if_pos hspan, if_pos hspan]
    change storeStrip (sumStrip block (rowsOf pixels stride)) pixels stride = _
    rw [storeStrip_eq (length_sumStrip block hspan), if_pos hspan]
    exact congrArg some (placedRows_congr (fun _ r hr => taken_sumStrip block hspan hr) ..)
  · rw [if_neg hspan, if_neg hspan]
    rfl

/-- **The two forms of an addition agree where rows do not overlap.** -/
theorem addStrip_eq_add (block : Block64) (pixels : List UInt8) (hapart : side ≤ stride) :
    addStrip block pixels stride = add block pixels stride := by
  rw [addStrip_eq, add_eq]
  by_cases hspan : span stride ≤ pixels.length
  · rw [if_pos hspan, if_pos hspan]
    refine congrArg some (foldl_placed_apart (· * stride) pixels (rows_apart hapart)
      (fun r hr old ho => ?_)
      ((rows_fit_iff stride _).2 hspan) rfl fun _ _ => rfl).symm
    exact length_addRow (length_coefficientRow block (List.mem_range.1 hr)) ho
  · rw [if_neg hspan, if_neg hspan]

/-! ### The two forms -/

/-- Two forms of a kernel agree for rows at a given distance: both give nothing, or both store the
same pixels. -/
def FormsAgree (strip plain : Block64 → List UInt8 → Nat → Option (List UInt8)) (stride : Nat) :
    Prop :=
  ∀ block pixels, strip block pixels stride = plain block pixels stride

/-- Coefficients that raise every pixel by one. -/
def ones : Block64 := Vector.replicate 64 1

/-- The pixels of a block in black, up to the last one. -/
def blackPixels (stride : Nat) : List UInt8 := List.replicate (span stride) 0

/-- Where rows overlap, one of the forms raises a pixel once and the other one twice. -/
theorem addStrip_ones_ne : ∀ stride < side,
    addStrip ones (blackPixels stride) stride ≠ add ones (blackPixels stride) stride := by
  decide +kernel

/-- The two forms of an addition agree exactly where rows do not overlap. -/
theorem formsAgree_add_iff (stride : Nat) : FormsAgree addStrip add stride ↔ side ≤ stride := by
  constructor
  · intro hagree
    by_contra hoverlap
    exact addStrip_ones_ne stride (Nat.lt_of_not_le hoverlap) (hagree ones (blackPixels stride))
  · intro hapart block pixels
    exact addStrip_eq_add block pixels hapart

/-- A kernel that goes row by row gives nothing exactly if the last row does not lie in the
pixels. -/
theorem storeRows_eq_none_iff {row : List Int16 → List UInt8 → List UInt8}
    (hrow : ∀ coefficients old, coefficients.length = side → old.length = side →
      (row coefficients old).length = side) (block : Block64) (pixels : List UInt8)
    (stride : Nat) : storeRows row block pixels stride = none ↔ pixels.length < span stride := by
  rw [storeRows_eq hrow, ite_eq_right_iff]
  simp

/-- **Where the two forms of a kernel agree.**  They store the same pixels, whatever the
coefficients and the pixels are, but additions do so only for rows that do not overlap.  All forms
give nothing exactly if the last row does not lie in the pixels. -/
theorem formsAgree_iff (stride : Nat) :
    FormsAgree putStrip put stride ∧ FormsAgree putSignedStrip putSigned stride ∧
      (FormsAgree addStrip add stride ↔ side ≤ stride) ∧
      ∀ block pixels, ∀ kernel ∈ [put, putStrip, putSigned, putSignedStrip, add, addStrip],
        (kernel block pixels stride = none ↔ pixels.length < span stride) := by
  have hput : FormsAgree putStrip put stride := fun block pixels => storeStrip_map ..
  have hsigned : FormsAgree putSignedStrip putSigned stride := fun block pixels => storeStrip_map ..
  refine ⟨hput, hsigned, formsAgree_add_iff stride, fun block pixels kernel hkernel => ?_⟩
  have hmapped (f : Int16 → UInt8) :
      storeRows (fun coefficients _ => coefficients.map f) block pixels stride = none ↔
        pixels.length < span stride :=
    storeRows_eq_none_iff (fun _ _ hc _ => by rw [List.length_map, hc]) ..
  simp only [List.mem_cons, List.not_mem_nil, or_false] at hkernel
  rcases hkernel with rfl | rfl | rfl | rfl | rfl | rfl
  · exact hmapped _
  · rw [hput]
    exact hmapped _
  · exact hmapped _
  · rw [hsigned]
    exact hmapped _
  · exact storeRows_eq_none_iff (fun _ _ => length_addRow) ..
  · rw [addStrip_eq, ite_eq_right_iff]
    simp

/-- Rows that overlap by half: the forms of an addition do not agree. -/
theorem not_formsAgree :
    ¬ ∀ stride, FormsAgree putStrip put stride ∧ FormsAgree putSignedStrip putSigned stride ∧
      FormsAgree addStrip add stride := by
  intro h
  exact addStrip_ones_ne 4 (by decide) ((h 4).2.2 ones (blackPixels 4))

end DolbyVision.Kernel
