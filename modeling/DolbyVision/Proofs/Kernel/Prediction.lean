/-
**Lossless prediction loses nothing.**

The residuals of median prediction are restored by a decoder that makes the same predictions: it has
the row above, and keeps the same neighbours as the encoder.  So residuals tell rows apart, also
over many rows.  The neighbours that a call leaves are all that the next one needs, so a row may be
cut anywhere.  The residuals of left prediction add up to the picture they were made from, whatever
lies between its rows.

Main definitions:

* `DolbyVision.Kernel.medianResidualsCut` — the residuals of a row that is handed over in pieces;
* `DolbyVision.Kernel.medianRows` — the residuals of row after row;
* `DolbyVision.Kernel.restored`, `DolbyVision.Kernel.restoredRows` — rows from their residuals;
* `DolbyVision.Kernel.runningSums` — the sums of residuals up to each one;
* `DolbyVision.Kernel.picture` — the rows of a picture one behind the other.

Main results:

* `DolbyVision.Kernel.medianResiduals_split`, `DolbyVision.Kernel.medianResidualsCut_eq` — **where a
  row is cut does not matter**;
* `DolbyVision.Kernel.restored_medianResiduals`, `DolbyVision.Kernel.injOn_medianRows` — **different
  rows have different residuals**;
* `DolbyVision.Kernel.leftResiduals_eq`, `DolbyVision.Kernel.runningSums_leftResiduals` — what left
  prediction stores, and that it adds up to the picture;
* `DolbyVision.Kernel.prediction_loses_nothing` — all of this together.
-/

import DolbyVision.Kernel.Prediction
import DolbyVision.Proofs.Kernel.Segment
import Mathlib.Algebra.GroupWithZero.Nat
import Mathlib.Data.Set.Function

set_option relaxedAutoImplicit false
set_option autoImplicit false

namespace DolbyVision.Kernel

/-! ### Median prediction, byte by byte -/

section Median

variable {target top current : List UInt8} {n : Neighbours}

@[simp] theorem medianResiduals_nil_target (top current : List UInt8) (n : Neighbours) :
    medianResiduals [] top current n = ([], n) := by
  simp [medianResiduals, residuals]

@[simp] theorem medianResiduals_nil_top (target current : List UInt8) (n : Neighbours) :
    medianResiduals target [] current n = (target, n) := by
  simp [medianResiduals, residuals]

@[simp] theorem medianResiduals_nil_current (target top : List UInt8) (n : Neighbours) :
    medianResiduals target top [] n = (target, n) := by
  simp [medianResiduals, residuals]

/-- A byte is stored, and the rest of the row follows it. -/
theorem medianResiduals_cons (d t c : UInt8) (target top current : List UInt8) (n : Neighbours) :
    medianResiduals (d :: target) (t :: top) (c :: current) n =
      ((c - n.prediction t) :: (medianResiduals target top current ⟨c, t⟩).1,
        (medianResiduals target top current ⟨c, t⟩).2) := by
  simp [medianResiduals, residuals, overwrite_cons]

/-! ### Rows in pieces -/

/-- A row that is cut in two leaves the same as both pieces one after the other. -/
theorem medianResiduals_split (length : Nat) (target top current : List UInt8) (n : Neighbours) :
    let first := medianResiduals (target.take length) (top.take length) (current.take length) n
    let rest :=
      medianResiduals (target.drop length) (top.drop length) (current.drop length) first.2
    medianResiduals target top current n = (first.1 ++ rest.1, rest.2) := by
  induction length generalizing target top current n with
  | zero => simp
  | succ length ih =>
    match target, top, current with
    | [], _, _ => simp
    | d :: target, [], _ => simp
    | d :: target, t :: top, [] => simp
    | d :: target, t :: top, c :: current =>
      simp only [List.take_succ_cons, List.drop_succ_cons, medianResiduals_cons, List.cons_append]
      rw [ih]

/-- The residuals of a row that is handed over in pieces of given lengths, with the neighbours
carried from piece to piece. -/
def medianResidualsCut : List Nat → List UInt8 → List UInt8 → List UInt8 → Neighbours →
    List UInt8 × Neighbours
  | [], target, _, _, n => (target, n)
  | length :: lengths, target, top, current, n =>
    let (first, carried) :=
      medianResiduals (target.take length) (top.take length) (current.take length) n
    let (rest, last) :=
      medianResidualsCut lengths (target.drop length) (top.drop length) (current.drop length)
        carried
    (first ++ rest, last)

/-- **Where a row is cut does not matter.** -/
theorem medianResidualsCut_eq {lengths : List Nat} (hlengths : lengths.sum = current.length) :
    medianResidualsCut lengths target top current n = medianResiduals target top current n := by
  induction lengths generalizing target top current n with
  | nil =>
    rw [List.length_eq_zero_iff.1 hlengths.symm]
    simp [medianResidualsCut]
  | cons length lengths ih =>
    have hrest : lengths.sum = (current.drop length).length := by
      rw [List.sum_cons] at hlengths
      rw [List.length_drop]
      omega
    rw [medianResidualsCut, medianResiduals_split length target top current n]
    simp only [ih hrest]

/-! ### Rows from residuals -/

/-- A row from its residuals and the row above, and the neighbours afterwards. -/
def restored : Neighbours → List UInt8 → List UInt8 → List UInt8 × Neighbours
  | n, top :: tops, residual :: residuals =>
    let (rest, last) := restored ⟨residual + n.prediction top, top⟩ tops residuals
    ((residual + n.prediction top) :: rest, last)
  | n, _, _ => ([], n)

/-- **A row is restored from its residuals**, and so are the neighbours. -/
theorem restored_medianResiduals (hcurrent : current.length = top.length)
    (htarget : top.length ≤ target.length) (n : Neighbours) :
    restored n top (medianResiduals target top current n).1 =
      (current, (medianResiduals target top current n).2) := by
  induction top generalizing target current n with
  | nil =>
    rw [List.length_eq_zero_iff.1 hcurrent]
    simp [restored]
  | cons t top ih =>
    match target, current with
    | d :: target, c :: current =>
      rw [medianResiduals_cons, restored, UInt8.sub_add_cancel,
        ih (Nat.succ_inj.1 hcurrent) (Nat.le_of_succ_le_succ htarget)]

/-! ### Row after row -/

/-- The residuals of row after row, with the neighbours carried from row to row. -/
def medianRows : List (List UInt8) → List (List UInt8) → List (List UInt8) → Neighbours →
    List (List UInt8)
  | target :: targets, top :: tops, current :: rows, n =>
    let (residuals, last) := medianResiduals target top current n
    residuals :: medianRows targets tops rows last
  | _, _, _, _ => []

/-- Rows from their residuals and the rows above them. -/
def restoredRows : List (List UInt8) → List (List UInt8) → Neighbours → List (List UInt8)
  | top :: tops, residuals :: rest, n =>
    let (row, last) := restored n top residuals
    row :: restoredRows tops rest last
  | _, _, _ => []

/-- Rows are restored one by one, since the decoder keeps the neighbours of the encoder. -/
theorem restoredRows_medianRows {targets tops rows : List (List UInt8)}
    (htargets : List.Forall₂ (fun target top => top.length ≤ target.length) targets tops)
    (hrows : List.Forall₂ (fun top row => row.length = top.length) tops rows) (n : Neighbours) :
    restoredRows tops (medianRows targets tops rows n) n = rows := by
  induction htargets generalizing rows n with
  | nil =>
    cases hrows
    rfl
  | cons htarget _ ih =>
    cases hrows with
    | cons hrow hrows =>
      rw [medianRows, restoredRows, restored_medianResiduals hrow htarget]
      exact congrArg _ (ih hrows _)

/-- **Different rows have different residuals.** -/
theorem injOn_medianRows {targets tops : List (List UInt8)}
    (htargets : List.Forall₂ (fun target top => top.length ≤ target.length) targets tops)
    (n : Neighbours) :
    Set.InjOn (fun rows => medianRows targets tops rows n)
      {rows | List.Forall₂ (fun top row => row.length = top.length) tops rows} := by
  have hinverse : Set.LeftInvOn (fun residuals => restoredRows tops residuals n)
      (fun rows => medianRows targets tops rows n)
      {rows | List.Forall₂ (fun top row => row.length = top.length) tops rows} :=
    fun rows hrows => restoredRows_medianRows htargets hrows n
  exact hinverse.injOn

end Median

/-! ### Left prediction -/

section Left

/-- The sums of residuals up to each one, modulo 256, on top of what precedes the first. -/
def runningSums : UInt8 → List UInt8 → List UInt8
  | _, [] => []
  | sum, residual :: residuals => (sum + residual) :: runningSums (sum + residual) residuals

@[simp] theorem length_leftDifferences (previous : UInt8) (bytes : List UInt8) :
    (leftDifferences previous bytes).length = bytes.length := by
  induction bytes generalizing previous with
  | nil => rfl
  | cons b bytes ih => rw [leftDifferences, List.length_cons, ih, List.length_cons]

/-- The residuals of bytes add up to the bytes, whatever follows. -/
theorem getElem?_runningSums (previous : UInt8) (bytes rest : List UInt8) {i : Nat}
    (hi : i < bytes.length) :
    (runningSums previous (leftDifferences previous bytes ++ rest))[i]? = bytes[i]? := by
  induction bytes generalizing previous i with
  | nil => cases hi
  | cons b bytes ih =>
    have hsum : previous + (b - previous) = b := by
      rw [UInt8.add_comm, UInt8.sub_add_cancel]
    rw [leftDifferences, List.cons_append, runningSums, hsum]
    cases i with
    | zero => rfl
    | succ i =>
      rw [List.getElem?_cons_succ, List.getElem?_cons_succ]
      exact ih b (Nat.lt_of_succ_lt_succ hi)

/-- The rows of a picture one behind the other. -/
def picture (source : List UInt8) (stride width height : Nat) : List UInt8 :=
  ((List.range height).map fun row => taken source (row * stride) width).flatten

/-- All bytes of a picture lie in the source. -/
def HoldsPicture (source : List UInt8) (stride width height : Nat) : Prop :=
  ∀ row < height, ∀ column < width, row * stride + column < source.length

variable {target source source' : List UInt8} {stride width height : Nat}

theorem HoldsPicture.rows_fit (h : HoldsPicture source stride width height) (hwidth : 0 < width) :
    ∀ row ∈ List.range height, row * stride + width ≤ source.length := by
  intro row hrow
  have hlast := h row (List.mem_range.1 hrow) (width - 1) (by omega)
  omega

/-- The rows of a picture have its width. -/
theorem HoldsPicture.length_row (h : HoldsPicture source stride width height) (hwidth : 0 < width) :
    ∀ row ∈ (List.range height).map fun row => taken source (row * stride) width,
      row.length = width := by
  intro row hrow
  obtain ⟨r, hr, rfl⟩ := List.mem_map.1 hrow
  exact length_taken (h.rows_fit hwidth r hr)

theorem length_picture (h : HoldsPicture source stride width height) :
    (picture source stride width height).length = width * height := by
  rcases Nat.eq_zero_or_pos width with rfl | hwidth
  · simp [picture, taken]
  · rw [picture, length_flatten_rows (h.length_row hwidth), List.length_map, List.length_range,
      Nat.mul_comm]

/-- A byte of a picture is found in its row of the source. -/
theorem getElem?_picture (h : HoldsPicture source stride width height) {row column : Nat}
    (hrow : row < height) (hcolumn : column < width) :
    (picture source stride width height)[row * width + column]? =
      source[row * stride + column]? := by
  have hwidth : 0 < width := Nat.lt_of_le_of_lt (Nat.zero_le column) hcolumn
  have hindex : row <
      ((List.range height).map fun r => taken source (r * stride) width).length := by
    rwa [List.length_map, List.length_range]
  calc (picture source stride width height)[row * width + column]?
    _ = (taken (picture source stride width height) (width * row) width)[column]? := by
      rw [getElem?_taken, if_pos hcolumn, Nat.mul_comm]
    _ = (taken source (row * stride) width)[column]? := by
      rw [picture, taken_flatten (h.length_row hwidth) hindex, List.getElem_map,
        List.getElem_range]
    _ = source[row * stride + column]? := by
      rw [getElem?_taken, if_pos hcolumn]

/-- Pictures are the same if their bytes are. -/
theorem picture_congr (hsame : ∀ row < height, ∀ column < width,
    source'[row * stride + column]? = source[row * stride + column]?) :
    picture source' stride width height = picture source stride width height := by
  have hrows : ∀ row ∈ List.range height,
      taken source' (row * stride) width = taken source (row * stride) width := by
    intro row hrow
    apply List.ext_getElem?
    intro column
    rw [getElem?_taken, getElem?_taken]
    split
    · case isTrue hcolumn => exact hsame row (List.mem_range.1 hrow) column hcolumn
    · rfl
  rw [picture, picture, List.map_congr_left hrows]

/-- **What left prediction stores** are the residuals of the picture. -/
theorem leftResiduals_eq (h : HoldsPicture source stride width height)
    (htarget : width * height ≤ target.length) :
    leftResiduals target source stride width height =
      some (overwrite target
        (leftDifferences firstPrediction (picture source stride width height))) := by
  unfold leftResiduals
  split
  · case isTrue hempty =>
    have hnil : picture source stride width height = [] := by
      rw [← List.length_eq_zero_iff, length_picture h, Nat.mul_eq_zero]
      exact hempty
    rw [hnil, leftDifferences, overwrite_nil_right]
  · case isFalse hsome =>
    rw [not_or] at hsome
    have hwidth : 0 < width := Nat.pos_of_ne_zero hsome.1
    have hheight : min height (target.length / width) = height := by
      rw [Nat.min_eq_left]
      rwa [Nat.le_div_iff_mul_le hwidth, Nat.mul_comm]
    rw [hheight, mapM_segment, if_pos (h.rows_fit hwidth)]
    rfl

/-- The residuals of a picture add up to it. -/
theorem runningSums_leftResiduals (h : HoldsPicture source stride width height)
    (htarget : width * height ≤ target.length) {row column : Nat} (hrow : row < height)
    (hcolumn : column < width) :
    (runningSums firstPrediction (overwrite target
        (leftDifferences firstPrediction (picture source stride width height))))[
          row * width + column]? = source[row * stride + column]? := by
  have hindex : row * width + column < (picture source stride width height).length := by
    rw [length_picture h]
    calc row * width + column < row * width + width := Nat.add_lt_add_left hcolumn _
      _ = width * (row + 1) := by rw [Nat.mul_succ, Nat.mul_comm]
      _ ≤ width * height := Nat.mul_le_mul_left width hrow
  have htake : (leftDifferences firstPrediction (picture source stride width height)).length ≤
      target.length := by
    rwa [length_leftDifferences, length_picture h]
  rw [overwrite, List.take_of_length_le htake, getElem?_runningSums _ _ _ hindex,
    getElem?_picture h hrow hcolumn]

/-- Nothing is stored behind the residuals of a picture. -/
theorem leavesFrom_leftResiduals (h : HoldsPicture source stride width height)
    (htarget : width * height ≤ target.length) :
    LeavesFrom (width * height) target (overwrite target
      (leftDifferences firstPrediction (picture source stride width height))) := by
  have hleaves := leavesFrom_overwrite target
    (leftDifferences firstPrediction (picture source stride width height))
  rwa [length_leftDifferences, length_picture h, Nat.min_eq_right htarget] at hleaves

/-- What lies between the rows of a picture is not in it. -/
theorem HoldsPicture.congr (h : HoldsPicture source stride width height)
    (hsame : ∀ row < height, ∀ column < width,
      source'[row * stride + column]? = source[row * stride + column]?) :
    HoldsPicture source' stride width height := by
  intro row hrow column hcolumn
  have hbyte := hsame row hrow column hcolumn
  rw [List.getElem?_eq_getElem (h row hrow column hcolumn)] at hbyte
  exact (List.getElem?_eq_some_iff.1 hbyte).1

end Left

/-! ### Both predictions -/

/-- **Prediction loses nothing.**

* A row that is handed over in pieces of any lengths has the residuals, and leaves the neighbours,
  of the row as a whole.
* Rows below given ones have different residuals if they are different, where the neighbours are
  carried from row to row and there is room for each row.
* The residuals of a picture that lies in the source, stored where there is room for them, add up to
  the picture.  They depend on nothing else in the source, and nothing behind them is touched. -/
theorem prediction_loses_nothing :
    (∀ (target top current : List UInt8) (n : Neighbours) (lengths : List Nat),
      lengths.sum = current.length →
      medianResidualsCut lengths target top current n = medianResiduals target top current n) ∧
    (∀ (targets tops : List (List UInt8)) (n : Neighbours),
      List.Forall₂ (fun target top => top.length ≤ target.length) targets tops →
      Set.InjOn (fun rows => medianRows targets tops rows n)
        {rows | List.Forall₂ (fun top row => row.length = top.length) tops rows}) ∧
    ∀ (target source : List UInt8) (stride width height : Nat),
      HoldsPicture source stride width height → width * height ≤ target.length →
      ∃ stored, leftResiduals target source stride width height = some stored ∧
        (∀ row < height, ∀ column < width,
          (runningSums 0x80 stored)[row * width + column]? = source[row * stride + column]?) ∧
        LeavesFrom (width * height) target stored ∧
        ∀ source' : List UInt8,
          (∀ row < height, ∀ column < width,
            source'[row * stride + column]? = source[row * stride + column]?) →
          leftResiduals target source' stride width height = some stored := by
  refine ⟨fun target top current n lengths hlengths => medianResidualsCut_eq hlengths,
    fun targets tops n htargets => injOn_medianRows htargets n, ?_⟩
  intro target source stride width height h htarget
  refine ⟨_, leftResiduals_eq h htarget, ?_, leavesFrom_leftResiduals h htarget, ?_⟩
  · intro row hrow column hcolumn
    exact runningSums_leftResiduals h htarget hrow hcolumn
  · intro source' hsame
    rw [leftResiduals_eq (h.congr hsame) htarget, picture_congr hsame]

/-- A row in three pieces, one of them empty; two pairs of rows; and a picture of two by two bytes
with two bytes behind each row. -/
theorem prediction_loses_nothing_small :
    medianResidualsCut [1, 0, 3] [0, 0, 0, 0] [10, 20, 30, 40] [12, 18, 35, 41] ⟨0, 0⟩ =
      ([2, 254, 7, 1], ⟨41, 40⟩) ∧
    medianRows [[0, 0], [0]] [[7, 9], [200]] [[1, 2], [3]] ⟨5, 6⟩ ≠
      medianRows [[0, 0], [0]] [[7, 9], [200]] [[1, 3], [3]] ⟨5, 6⟩ ∧
    leftResiduals [0, 0, 0, 0, 7] [0x80, 0x81, 0xff, 0xff, 0x10, 0x20, 0xee] 4 2 2 =
      leftResiduals [0, 0, 0, 0, 7] [0x80, 0x81, 0x00, 0x01, 0x10, 0x20] 4 2 2 := by
  obtain ⟨hcut, hinj, hleft⟩ := prediction_loses_nothing
  refine ⟨?_, ?_, ?_⟩
  · rw [hcut _ _ _ _ _ (by decide)]
    decide
  · have hroom : List.Forall₂ (fun target top : List UInt8 => top.length ≤ target.length)
        [[0, 0], [0]] [[7, 9], [200]] := by decide
    exact (hinj _ _ ⟨5, 6⟩ hroom).ne (by decide) (by decide) (by decide)
  · obtain ⟨stored, hstored, -, -, hsame⟩ :=
      hleft [0, 0, 0, 0, 7] [0x80, 0x81, 0xff, 0xff, 0x10, 0x20, 0xee] 4 2 2
        (by unfold HoldsPicture; decide) (by decide)
    rw [hstored, hsame _ (by decide)]

end DolbyVision.Kernel
