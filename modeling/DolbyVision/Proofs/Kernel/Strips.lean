/-
**Kernels that work in strips or in pairs of rows.**

The faster forms of kernels cut their lists into strips, or take two rows at a time.  A kernel that
works sample by sample does not see where it is cut, so each of these forms gives what the plain one
gives, whatever the lengths of the lists and whatever the operations on single samples are.

Main definitions:

* `DolbyVision.Kernel.WholeBins` — three equally long lists of complex bins.

Main results:

* `DolbyVision.Kernel.flatten_strips`, `DolbyVision.Kernel.flatten_zipWith_strips` — **what is done
  strip by strip is done sample by sample**;
* `DolbyVision.Kernel.flatten_addStripBins` — the same of complex bins;
* `DolbyVision.Kernel.byPairs_eq` — the same of rows;
* `DolbyVision.Kernel.strips_agree` — **the forms of each kernel agree**.
-/

import DolbyVision.Kernel.PixelBlock
import DolbyVision.Kernel.Prediction
import DolbyVision.Kernel.Quantization
import DolbyVision.Kernel.Spectrum
import DolbyVision.Proofs.Kernel.TransformOutput

set_option relaxedAutoImplicit false
set_option autoImplicit false

namespace DolbyVision.Kernel

section Strips

variable {α β γ : Type} {n : Nat}

/-! ### Strips -/

@[simp] theorem strips_nil : strips n ([] : List α) = [] := by
  rw [strips, dif_pos (.inl rfl)]

theorem strips_of_ne_nil (hn : 0 < n) {samples : List α} (hsamples : samples ≠ []) :
    strips n samples = samples.take n :: strips n (samples.drop n) := by
  rw [strips, dif_neg]
  rintro (hnil | hzero)
  · exact hsamples hnil
  · omega

/-- Strips put together again. -/
theorem flatten_strips (hn : 0 < n) (samples : List α) : (strips n samples).flatten = samples := by
  induction samples using strips.induct n with
  | case1 samples h =>
    rcases h with rfl | hzero
    · simp
    · omega
  | case2 samples h _ ih =>
    rw [not_or] at h
    rw [strips_of_ne_nil hn h.1, List.flatten_cons, ih, List.take_append_drop]

/-- **What is done strip by strip is done sample by sample.** -/
theorem flatten_zipWith_strips (hn : 0 < n) (f : α → β → γ) (as : List α) (bs : List β) :
    (List.zipWith (List.zipWith f) (strips n as) (strips n bs)).flatten = List.zipWith f as bs := by
  induction as using strips.induct n generalizing bs with
  | case1 as h =>
    rcases h with rfl | hzero
    · simp
    · omega
  | case2 as h _ ih =>
    rw [not_or] at h
    by_cases hbs : bs = []
    · simp [hbs]
    · rw [strips_of_ne_nil hn h.1, strips_of_ne_nil hn hbs, List.zipWith_cons_cons,
        List.flatten_cons, ih, ← List.take_zipWith, ← List.drop_zipWith, List.take_append_drop]

/-! ### Targets -/

/-- The values that two lists give are stored as far as all three lists reach. -/
theorem overwrite_zipWith (f : α → β → γ) (samples : List γ) (as : List α) (bs : List β) :
    overwrite samples (List.zipWith f as bs) =
      List.zipWith f (as.take (min samples.length (min as.length bs.length)))
          (bs.take (min samples.length (min as.length bs.length))) ++
        samples.drop (min samples.length (min as.length bs.length)) := by
  rw [overwrite_eq, List.length_zipWith, List.take_zipWith]

end Strips

/-! ### Kernels that work sample by sample -/

theorem differenceStrips_eq (target a b : List UInt8) :
    differenceStrips target a b = difference target a b := by
  rw [difference, overwrite_zipWith, differenceStrips]
  generalize min target.length (min a.length b.length) = length
  have hfull (x : List UInt8) :
      x.take (length - length % differenceStrip) =
        (x.take length).take (length - length % differenceStrip) := by
    rw [List.take_take, Nat.min_eq_left (Nat.sub_le ..)]
  rw [flatten_zipWith_strips (by decide), hfull a, hfull b, ← List.take_zipWith,
    ← List.drop_zipWith, List.take_append_drop]

theorem leavesFrom_difference (target a b : List UInt8) :
    LeavesFrom (min target.length (min a.length b.length)) target (difference target a b) := by
  have hleaves := leavesFrom_overwrite target (List.zipWith (· - ·) a b)
  rwa [List.length_zipWith] at hleaves

section Binary32

variable {F : Type} [Binary32 F]

theorem powersStrips_eq (target input : List F) :
    powersStrips target input = powers target input := by
  rw [powers, overwrite_eq, List.length_map, ← List.map_take, powersStrips, ← List.map_flatten,
    flatten_strips (by decide)]

theorem leavesFrom_powers (target input : List F) :
    LeavesFrom (min target.length input.length) target (powers target input) := by
  have hleaves := leavesFrom_overwrite target (input.map power34)
  rwa [List.length_map] at hleaves

theorem quantizeBandStrips_eq (q : Quantizer F) (target : List Int32) (input scaled : List F) :
    quantizeBandStrips q target input scaled = quantizeBand q target input scaled := by
  rw [quantizeBand, overwrite_zipWith, quantizeBandStrips, flatten_zipWith_strips (by decide)]

theorem leavesFrom_quantizeBand (q : Quantizer F) (target : List Int32) (input scaled : List F) :
    LeavesFrom (min target.length (min input.length scaled.length)) target
      (quantizeBand q target input scaled) := by
  have hleaves := leavesFrom_overwrite target (List.zipWith (quantize q) input scaled)
  rwa [List.length_zipWith] at hleaves

end Binary32

/-! ### Complex bins -/

section Bins

variable {F : Type} {s t c : List F}

/-- Three equally long lists of complex bins. -/
inductive WholeBins : List F → List F → List F → Prop where
  | nil : WholeBins [] [] []
  | bin (sRe sIm tRe tIm cRe cIm : F) {s t c : List F} (rest : WholeBins s t c) :
      WholeBins (sRe :: sIm :: s) (tRe :: tIm :: t) (cRe :: cIm :: c)

theorem exists_bin {bins : Nat} (h : s.length = 2 * (bins + 1)) :
    ∃ re im rest, s = re :: im :: rest ∧ rest.length = 2 * bins := by
  match s with
  | re :: im :: rest => exact ⟨re, im, rest, rfl, by simp only [List.length_cons] at h; omega⟩
  | [_] => simp only [List.length_singleton] at h; omega
  | [] => cases h

theorem WholeBins.of_length {bins : Nat} (hs : s.length = 2 * bins) (ht : t.length = 2 * bins)
    (hc : c.length = 2 * bins) : WholeBins s t c := by
  induction bins generalizing s t c with
  | zero =>
    rw [List.length_eq_zero_iff.1 hs, List.length_eq_zero_iff.1 ht, List.length_eq_zero_iff.1 hc]
    exact nil
  | succ bins ih =>
    obtain ⟨sRe, sIm, s, rfl, hs'⟩ := exists_bin hs
    obtain ⟨tRe, tIm, t, rfl, ht'⟩ := exists_bin ht
    obtain ⟨cRe, cIm, c, rfl, hc'⟩ := exists_bin hc
    exact bin sRe sIm tRe tIm cRe cIm (ih hs' ht' hc')

variable [Binary32 F]

/-- A strip gives the same with real and imaginary parts apart. -/
theorem WholeBins.addStripBins_eq (h : WholeBins s t c) : addStripBins s t c = addBins s t c := by
  induction h with
  | nil => rfl
  | bin sRe sIm tRe tIm cRe cIm rest ih =>
    rw [addBins, ← ih]
    rfl

/-- Bins are added one by one, whatever bins follow. -/
theorem WholeBins.addBins_append (h : WholeBins s t c) (s' t' c' : List F) :
    addBins (s ++ s') (t ++ t') (c ++ c') = addBins s t c ++ addBins s' t' c' := by
  induction h with
  | nil => rfl
  | bin sRe sIm tRe tIm cRe cIm rest ih => simp only [List.cons_append, addBins, ih]

/-- **What is done strip by strip is done bin by bin.** -/
theorem flatten_addStripBins {width bins : Nat} (hwidth : 0 < width) (hs : s.length = 2 * bins)
    (ht : t.length = 2 * bins) (hc : c.length = 2 * bins) :
    (List.zipWith (fun s tc => addStripBins s tc.1 tc.2) (strips (2 * width) s)
      ((strips (2 * width) t).zip (strips (2 * width) c))).flatten = addBins s t c := by
  have hpos : 0 < 2 * width := Nat.mul_pos (by decide) hwidth
  induction s using strips.induct (2 * width) generalizing t c bins with
  | case1 s h =>
    rcases h with rfl | hzero
    · have hbins : bins = 0 := by simp only [List.length_nil] at hs; omega
      subst hbins
      rw [List.length_eq_zero_iff.1 ht, List.length_eq_zero_iff.1 hc, strips_nil]
      rfl
    · omega
  | case2 s h _ ih =>
    rw [not_or] at h
    have hbins : 0 < bins := by
      have := List.length_pos_iff.2 h.1
      omega
    have ht' : t ≠ [] := List.ne_nil_of_length_pos (by omega)
    have hc' : c ≠ [] := List.ne_nil_of_length_pos (by omega)
    have htake {x : List F} (hx : x.length = 2 * bins) :
        (x.take (2 * width)).length = 2 * min width bins := by
      rw [List.length_take]
      omega
    have hdrop {x : List F} (hx : x.length = 2 * bins) :
        (x.drop (2 * width)).length = 2 * (bins - width) := by
      rw [List.length_drop]
      omega
    have hwhole := WholeBins.of_length (htake hs) (htake ht) (htake hc)
    rw [strips_of_ne_nil hpos h.1, strips_of_ne_nil hpos ht', strips_of_ne_nil hpos hc',
      List.zip_cons_cons, List.zipWith_cons_cons, List.flatten_cons,
      ih (hdrop hs) (hdrop ht) (hdrop hc), hwhole.addStripBins_eq, ← hwhole.addBins_append,
      List.take_append_drop, List.take_append_drop, List.take_append_drop]

theorem addProductStrips_eq (sum t c : List F) (bins : Nat) :
    addProductStrips sum t c bins = addProduct sum t c bins := by
  unfold addProductStrips addProduct
  by_cases hlong : haveBins sum t c bins = true
  · have hlengths : (2 * bins < sum.length ∧ 2 * bins < t.length) ∧ 2 * bins < c.length := by
      simpa [haveBins] using hlong
    have htake {x : List F} (hx : 2 * bins < x.length) : (x.take (2 * bins)).length = 2 * bins := by
      rw [List.length_take]
      omega
    have hbody := flatten_addStripBins (show 0 < stripBins by decide) (htake hlengths.1.1)
      (htake hlengths.1.2) (htake hlengths.2)
    rw [if_pos hlong, if_pos hlong, ← hbody]
  · rw [if_neg hlong, if_neg hlong]

/-- A product is added if and only if all spectra have the last bin. -/
theorem addProduct_eq_none_iff (sum t c : List F) (bins : Nat) :
    addProduct sum t c bins = none ↔
      ¬ (2 * bins < sum.length ∧ 2 * bins < t.length ∧ 2 * bins < c.length) := by
  simp [addProduct, haveBins, and_assoc]

end Bins

/-! ### Rows of a block -/

section Rows

variable {row : Nat → Option (List Int16)}

/-- Two rows in one. -/
def pairOf (row : Nat → Option (List Int16)) (pair : Nat) : Option (List Int16) := do
  let upper ← row (2 * pair)
  let lower ← row (2 * pair + 1)
  return upper ++ lower

/-- Pairs of rows hold the rows, and are missing with them. -/
theorem flatten_pairs (row : Nat → Option (List Int16)) (n : Nat) :
    ((List.range n).mapM (pairOf row)).map List.flatten =
      ((List.range (2 * n)).mapM row).map List.flatten := by
  induction n with
  | zero => rfl
  | succ n ih =>
    rw [Nat.mul_succ, List.range_succ, List.range_succ, List.range_succ, List.mapM_append,
      List.mapM_append, List.mapM_append]
    cases hpairs : (List.range n).mapM (pairOf row) <;>
      cases hrows : (List.range (2 * n)).mapM row <;> rw [hpairs, hrows] at ih
    · rfl
    · cases ih
    · cases ih
    · rw [Option.map_some, Option.map_some, Option.some_inj] at ih
      cases hupper : row (2 * n) <;> cases hlower : row (2 * n + 1) <;>
        simp [pairOf, hupper, hlower, ih]

theorem byRows_eq (row : Nat → Option (List Int16)) :
    byRows row = ((List.range side).mapM row).map List.flatten :=
  bind_pure_comp ..

/-- **Two rows at a time give the same block as row by row.** -/
theorem byPairs_eq (row : Nat → Option (List Int16)) : byPairs row = byRows row := by
  calc byPairs row
    _ = ((List.range (side / 2)).mapM (pairOf row)).map List.flatten := bind_pure_comp ..
    _ = ((List.range side).mapM row).map List.flatten := flatten_pairs row (side / 2)
    _ = byRows row := (byRows_eq row).symm

theorem mapM_eq_none_iff {α β : Type} {f : α → Option β} {items : List α} :
    items.mapM f = none ↔ ∃ item ∈ items, f item = none := by
  induction items with
  | nil => simp
  | cons item items ih =>
    rw [List.mapM_cons]
    cases hfirst : f item <;> cases hrest : items.mapM f <;> simp_all

/-- Rows that each need so many pixels give a block unless the last one is missing. -/
theorem byRows_eq_none_iff {stride size : Nat}
    (hrow : ∀ r, row r = none ↔ ¬ r * stride + side ≤ size) :
    byRows row = none ↔ ¬ span stride ≤ size := by
  rw [byRows_eq, Option.map_eq_none_iff, mapM_eq_none_iff, ← rows_fit_iff]
  simp [hrow]

theorem byteRow_eq_none_iff (pixels : List UInt8) (start : Nat) :
    byteRow pixels start = none ↔ ¬ start + side ≤ pixels.length := by
  simp [byteRow, segment]

theorem differenceRow_eq_none_iff (a b : List UInt8) (start : Nat) :
    differenceRow a b start = none ↔ ¬ start + side ≤ min a.length b.length := by
  rw [Nat.le_min]
  by_cases ha : start + side ≤ a.length <;> by_cases hb : start + side ≤ b.length <;>
    simp [differenceRow, byteRow, segment, ha, hb]

end Rows

/-- **The forms of each kernel agree**, on whatever lists and for whatever arithmetic of binary32
numbers.  Kernels on samples leave what lies behind the shortest list as it is.  Kernels on spectra
and on pixels give nothing in either form, if the spectra are without the last bin or the pixels are
without the last row. -/
theorem strips_agree (F : Type) [Binary32 F] :
    (∀ target a b : List UInt8,
      differenceStrips target a b = difference target a b ∧
      LeavesFrom (min target.length (min a.length b.length)) target (difference target a b)) ∧
    (∀ target input : List F,
      powersStrips target input = powers target input ∧
      LeavesFrom (min target.length input.length) target (powers target input)) ∧
    (∀ (q : Quantizer F) (target : List Int32) (input scaled : List F),
      quantizeBandStrips q target input scaled = quantizeBand q target input scaled ∧
      LeavesFrom (min target.length (min input.length scaled.length)) target
        (quantizeBand q target input scaled)) ∧
    (∀ (sum t c : List F) (bins : Nat),
      addProductStrips sum t c bins = addProduct sum t c bins ∧
      (addProduct sum t c bins = none ↔
        ¬ (2 * bins < sum.length ∧ 2 * bins < t.length ∧ 2 * bins < c.length))) ∧
    (∀ (pixels : List UInt8) (stride : Nat),
      loadBytesPaired pixels stride = loadBytes pixels stride ∧
      (loadBytes pixels stride = none ↔ ¬ 7 * stride + 8 ≤ pixels.length)) ∧
    ∀ (a b : List UInt8) (stride : Nat),
      loadDifferencePaired a b stride = loadDifference a b stride ∧
      (loadDifference a b stride = none ↔
        ¬ (7 * stride + 8 ≤ a.length ∧ 7 * stride + 8 ≤ b.length)) := by
  refine ⟨fun target a b => ⟨differenceStrips_eq target a b, leavesFrom_difference target a b⟩,
    fun target input => ⟨powersStrips_eq target input, leavesFrom_powers target input⟩,
    fun q target input scaled => ⟨quantizeBandStrips_eq q target input scaled,
      leavesFrom_quantizeBand q target input scaled⟩,
    fun sum t c bins => ⟨addProductStrips_eq sum t c bins, addProduct_eq_none_iff sum t c bins⟩,
    fun pixels stride => ⟨byPairs_eq _, byRows_eq_none_iff fun r => byteRow_eq_none_iff ..⟩,
    fun a b stride => ⟨byPairs_eq _, ?_⟩⟩
  rw [← Nat.le_min]
  exact byRows_eq_none_iff fun r => differenceRow_eq_none_iff ..

end DolbyVision.Kernel
