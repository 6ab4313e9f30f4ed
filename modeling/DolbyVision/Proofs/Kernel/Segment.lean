/-
**Rows in a list of samples.**

A kernel that stores rows one by one gives nothing as soon as a row does not fit.  Rows keep the
number of samples, so whether they all fit can be seen in advance, and if they do, what results is a
plain fold (`foldlM_rows`).  A row that is stored is seen in its place and nowhere else
(`getElem?_placed`), so rows that do not overlap leave each other alone.

Main definitions:

* `DolbyVision.Kernel.placed`, `DolbyVision.Kernel.taken` — samples with a row in a place, and the
  row that is in a place;
* `DolbyVision.Kernel.LeavesFrom` — samples are left as they are from a given one on.

Main results:

* `DolbyVision.Kernel.getElem?_placed` — **a row is seen in its place and nowhere else**;
* `DolbyVision.Kernel.taken_placed` — a row is left alone by one that does not overlap it;
* `DolbyVision.Kernel.foldlM_rows`, `DolbyVision.Kernel.mapM_segment` — **a kernel gives nothing
  exactly if a row does not fit**;
* `DolbyVision.Kernel.foldl_placed_apart` — **rows that do not overlap do not see each other**;
* `DolbyVision.Kernel.getElem?_foldl_inside`, `DolbyVision.Kernel.getElem?_foldl_outside` — what is
  seen where rows were placed, and everywhere else.
-/

import DolbyVision.Kernel.Segment
import Mathlib.Data.List.Basic

set_option relaxedAutoImplicit false
set_option autoImplicit false

namespace DolbyVision.Kernel

variable {α : Type} {samples row : List α} {start length : Nat}

/-! ### One row -/

/-- The samples with a row in the place of those from `start` on. -/
def placed (samples : List α) (start : Nat) (row : List α) : List α :=
  samples.take start ++ row ++ samples.drop (start + row.length)

/-- The `length` samples from `start` on. -/
def taken (samples : List α) (start length : Nat) : List α :=
  (samples.drop start).take length

theorem segment_eq (samples : List α) (start length : Nat) :
    segment samples start length =
      if start + length ≤ samples.length then some (taken samples start length) else none :=
  rfl

theorem store_eq (samples : List α) (start : Nat) (row : List α) :
    store samples start row =
      if start + row.length ≤ samples.length then some (placed samples start row) else none :=
  rfl

theorem length_taken (h : start + length ≤ samples.length) :
    (taken samples start length).length = length := by
  rw [taken, List.length_take, List.length_drop]
  omega

theorem length_placed (h : start + row.length ≤ samples.length) :
    (placed samples start row).length = samples.length := by
  simp only [placed, List.length_append, List.length_take, List.length_drop]
  omega

theorem getElem?_taken (samples : List α) (start length i : Nat) :
    (taken samples start length)[i]? = if i < length then samples[start + i]? else none := by
  rw [taken, List.getElem?_take, List.getElem?_drop]

/-- **A row is seen in its place and nowhere else.** -/
theorem getElem?_placed (h : start ≤ samples.length) (i : Nat) :
    (placed samples start row)[i]? =
      if start ≤ i ∧ i < start + row.length then row[i - start]? else samples[i]? := by
  have hfront : (samples.take start).length = start := by
    rw [List.length_take, Nat.min_eq_left h]
  rw [placed, List.append_assoc, List.getElem?_append, hfront]
  by_cases hbefore : i < start
  · rw [if_pos hbefore, if_neg (by omega), List.getElem?_take_of_lt hbefore]
  · rw [if_neg hbefore, List.getElem?_append]
    by_cases hin : i - start < row.length
    · rw [if_pos hin, if_pos (by omega)]
    · rw [if_neg hin, if_neg (by omega), List.getElem?_drop]
      congr 1
      omega

/-- A row is left alone by one that does not overlap it. -/
theorem taken_placed {other : Nat} (hfits : start ≤ samples.length)
    (hapart : other + length ≤ start ∨ start + row.length ≤ other) :
    taken (placed samples start row) other length = taken samples other length := by
  apply List.ext_getElem?
  intro i
  rw [getElem?_taken, getElem?_taken]
  split
  · rw [getElem?_placed hfits, if_neg (by omega)]
  · rfl

/-! ### The start of a list -/

/-- Samples are left as they are from the one of number `n` on. -/
structure LeavesFrom (n : Nat) (before after : List α) : Prop where
  length : after.length = before.length
  rest : after.drop n = before.drop n

theorem overwrite_eq (samples values : List α) :
    overwrite samples values =
      values.take (min samples.length values.length) ++
        samples.drop (min samples.length values.length) := by
  rcases Nat.le_total samples.length values.length with h | h
  · rw [overwrite, Nat.min_eq_left h, List.drop_of_length_le h, List.drop_length]
  · rw [overwrite, Nat.min_eq_right h, List.take_of_length_le h, List.take_length]

@[simp] theorem overwrite_nil_right (samples : List α) : overwrite samples [] = samples := by
  simp [overwrite]

theorem overwrite_cons (sample value : α) (samples values : List α) :
    overwrite (sample :: samples) (value :: values) = value :: overwrite samples values := by
  simp [overwrite]

theorem leavesFrom_overwrite (samples values : List α) :
    LeavesFrom (min samples.length values.length) samples (overwrite samples values) where
  length := length_overwrite samples values
  rest := by
    rw [overwrite_eq]
    exact List.drop_left' (by rw [List.length_take]; omega)

/-! ### Row after row -/

/-- **A kernel gives nothing exactly if a row does not fit.**  Otherwise it places the rows one
after the other. -/
theorem foldlM_rows (place : Nat → Nat) {width : Nat} {rowOf : List α → Nat → List α}
    {rows : List Nat} {step : List α → Nat → Option (List α)}
    (hwidth : ∀ samples, ∀ r ∈ rows, place r + width ≤ samples.length →
      (rowOf samples r).length = width)
    (hstep : ∀ samples, ∀ r ∈ rows, step samples r =
      if place r + width ≤ samples.length then store samples (place r) (rowOf samples r) else none)
    (samples : List α) :
    rows.foldlM step samples =
      if ∀ r ∈ rows, place r + width ≤ samples.length then
        some (rows.foldl (fun samples r => placed samples (place r) (rowOf samples r)) samples)
      else none := by
  induction rows generalizing samples with
  | nil =>
    rw [if_pos (by simp)]
    rfl
  | cons r rows ih =>
    have hfirst : r ∈ r :: rows := List.mem_cons_self ..
    have hrest := ih (fun samples r' hr' => hwidth samples r' (List.mem_cons_of_mem r hr'))
      fun samples r' hr' => hstep samples r' (List.mem_cons_of_mem r hr')
    rw [List.foldlM_cons, hstep samples r hfirst]
    by_cases hfits : place r + width ≤ samples.length
    · have hplace : place r + (rowOf samples r).length ≤ samples.length := by
        rwa [hwidth samples r hfirst hfits]
      rw [if_pos hfits, store_eq, if_pos hplace, Option.bind_eq_bind, Option.bind_some, hrest,
        length_placed hplace, List.foldl_cons]
      simp only [List.forall_mem_cons, hfits, true_and]
    · rw [if_neg hfits, if_neg fun h => hfits (h r hfirst)]
      rfl

/-- **Rows that do not overlap do not see each other**: what a row makes of the samples in its place
is the same whether they are taken when its turn comes or at first. -/
theorem foldl_placed_apart (place : Nat → Nat) {width : Nat} {make : Nat → List α → List α}
    {rows : List Nat} (samples : List α)
    (hapart : rows.Pairwise fun r r' => place r + width ≤ place r')
    (hmake : ∀ r ∈ rows, ∀ old, old.length = width → (make r old).length = width)
    (hfits : ∀ r ∈ rows, place r + width ≤ samples.length) {current : List α}
    (hlength : current.length = samples.length)
    (hsame : ∀ r ∈ rows, taken current (place r) width = taken samples (place r) width) :
    rows.foldl (fun s r => placed s (place r) (make r (taken s (place r) width))) current =
      rows.foldl (fun s r => placed s (place r) (make r (taken samples (place r) width)))
        current := by
  induction rows generalizing current with
  | nil => rfl
  | cons r rows ih =>
    rw [List.pairwise_cons] at hapart
    rw [List.forall_mem_cons] at hmake hfits hsame
    have hwidth : (make r (taken samples (place r) width)).length = width :=
      hmake.1 _ (length_taken hfits.1)
    have hplace : place r + (make r (taken samples (place r) width)).length ≤ current.length := by
      rw [hwidth, hlength]
      exact hfits.1
    rw [List.foldl_cons, List.foldl_cons, hsame.1]
    refine ih hapart.2 hmake.2 hfits.2 (by rw [length_placed hplace, hlength]) fun r' hr' => ?_
    rw [taken_placed (by omega) (.inr (by rw [hwidth]; exact hapart.1 r' hr')), hsame.2 r' hr']

section Placed

variable {place : Nat → Nat} {rowOf : Nat → List α} {rows : List Nat}

theorem length_foldl_placed (hfits : ∀ r ∈ rows, place r + (rowOf r).length ≤ samples.length) :
    (rows.foldl (fun s r => placed s (place r) (rowOf r)) samples).length = samples.length := by
  induction rows generalizing samples with
  | nil => rfl
  | cons r rows ih =>
    rw [List.forall_mem_cons] at hfits
    have hlength := length_placed hfits.1
    rw [List.foldl_cons, ih fun r' hr' => by rw [hlength]; exact hfits.2 r' hr', hlength]

/-- Samples that lie in no row are left alone. -/
theorem getElem?_foldl_outside (hfits : ∀ r ∈ rows, place r + (rowOf r).length ≤ samples.length)
    {i : Nat} (hout : ∀ r ∈ rows, i < place r ∨ place r + (rowOf r).length ≤ i) :
    (rows.foldl (fun s r => placed s (place r) (rowOf r)) samples)[i]? = samples[i]? := by
  induction rows generalizing samples with
  | nil => rfl
  | cons r rows ih =>
    rw [List.forall_mem_cons] at hfits hout
    have hlength := length_placed hfits.1
    rw [List.foldl_cons, ih (fun r' hr' => by rw [hlength]; exact hfits.2 r' hr') hout.2,
      getElem?_placed (by omega), if_neg (by omega)]

/-- Samples that lie in a row are those of the row, which no later row disturbs. -/
theorem getElem?_foldl_inside (hfits : ∀ r ∈ rows, place r + (rowOf r).length ≤ samples.length)
    (hapart : rows.Pairwise fun r r' => place r + (rowOf r).length ≤ place r') {r j : Nat}
    (hr : r ∈ rows) (hj : j < (rowOf r).length) :
    (rows.foldl (fun s r => placed s (place r) (rowOf r)) samples)[place r + j]? =
      (rowOf r)[j]? := by
  induction rows generalizing samples with
  | nil => cases hr
  | cons first rows ih =>
    rw [List.forall_mem_cons] at hfits
    rw [List.pairwise_cons] at hapart
    have hlength := length_placed hfits.1
    have hrest : ∀ r' ∈ rows, place r' + (rowOf r').length ≤
        (placed samples (place first) (rowOf first)).length := by
      intro r' hr'
      rw [hlength]
      exact hfits.2 r' hr'
    rw [List.foldl_cons]
    rcases List.mem_cons.1 hr with rfl | hr
    · rw [getElem?_foldl_outside hrest fun r' hr' => .inl (by have := hapart.1 r' hr'; omega),
        getElem?_placed (by omega), if_pos (by omega), Nat.add_sub_cancel_left]
    · exact ih hrest hapart.2 hr

end Placed

/-- Loading rows gives nothing exactly if a row does not fit. -/
theorem mapM_segment (samples : List α) (place : Nat → Nat) (width : Nat) (rows : List Nat) :
    rows.mapM (fun r => segment samples (place r) width) =
      if ∀ r ∈ rows, place r + width ≤ samples.length then
        some (rows.map fun r => taken samples (place r) width)
      else none := by
  induction rows with
  | nil =>
    rw [if_pos (by simp)]
    rfl
  | cons r rows ih =>
    rw [List.mapM_cons, segment_eq, ih]
    by_cases hfits : place r + width ≤ samples.length
    · simp only [List.forall_mem_cons, hfits, true_and, if_true]
      split <;> rfl
    · have hnot : ¬ ∀ r' ∈ r :: rows, place r' + width ≤ samples.length :=
        fun h => hfits (h r (List.mem_cons_self ..))
      rw [if_neg hfits, if_neg hnot]
      rfl

theorem length_flatten_rows {rows : List (List α)} {width : Nat}
    (h : ∀ row ∈ rows, row.length = width) : rows.flatten.length = rows.length * width := by
  induction rows with
  | nil => exact (Nat.zero_mul width).symm
  | cons row rows ih =>
    rw [List.forall_mem_cons] at h
    rw [List.flatten_cons, List.length_append, h.1, ih h.2, List.length_cons, Nat.succ_mul,
      Nat.add_comm]

/-- A row is found in the strip to which it was joined with others of its width. -/
theorem taken_flatten {rows : List (List α)} {width : Nat} (h : ∀ row ∈ rows, row.length = width)
    {i : Nat} (hi : i < rows.length) : taken rows.flatten (width * i) width = rows[i] := by
  induction rows generalizing i with
  | nil => cases hi
  | cons row rows ih =>
    have hfirst : row.length = width := h row (List.mem_cons_self ..)
    rw [List.flatten_cons, taken]
    cases i with
    | zero => exact List.take_left' hfirst
    | succ i =>
      have hskip : width * (i + 1) = row.length + width * i := by
        rw [hfirst, Nat.mul_succ, Nat.add_comm]
      rw [hskip, List.drop_length_add_append]
      exact ih (fun row' hrow' => h row' (List.mem_cons_of_mem row hrow'))
        (Nat.lt_of_succ_lt_succ hi)

end DolbyVision.Kernel
