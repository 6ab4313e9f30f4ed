/-
**Arithmetic that notices when it leaves its range.**

Lengths, depths and counts are natural numbers that a coder keeps in machine words.  The operations
of this module compute on them and fail with `Fault.defect` where the word could not hold the
result, so that a wrong bound shows as a fault instead of as a wrong value.

Main definitions:

* `DolbyVision.Checked.sub` — a difference that may not be negative;
* `DolbyVision.Checked.within`, `DolbyVision.Checked.add`, `DolbyVision.Checked.mul` — results that
  must fit in a word of a given width;
* `DolbyVision.Checked.atMost` — a number that may not exceed a limit;
* `DolbyVision.Checked.shiftAmount` — a shift amount that must be smaller than the width of the
  word;
* `DolbyVision.Checked.bit` — a word with one bit set, which must have that bit;
* `DolbyVision.Checked.item`, `DolbyVision.Checked.splitAt` — an item and the parts of a list, at an
  index that must not lie behind its end.
-/

import DolbyVision.Fault

set_option relaxedAutoImplicit false
set_option autoImplicit false

namespace DolbyVision.Checked

/-- The difference of two numbers, which may not be negative. -/
def sub (a b : Nat) : Except Fault Nat :=
  if b ≤ a then .ok (a - b) else .error (.defect .negativeDifference)

/-- A number that has to fit in a word of `width` bits. -/
def within (width n : Nat) : Except Fault Nat :=
  if n < 1 <<< width then .ok n else .error (.defect .overflow)

/-- The sum of two numbers in a word of `width` bits. -/
def add (width a b : Nat) : Except Fault Nat :=
  within width (a + b)

/-- The product of two numbers in a word of `width` bits. -/
def mul (width a b : Nat) : Except Fault Nat :=
  within width (a * b)

/-- A number that may not exceed a limit. -/
def atMost (limit n : Nat) : Except Fault Nat :=
  if n ≤ limit then .ok n else .error (.defect .overflow)

/-- The amount of a shift in a word of `width` bits. -/
def shiftAmount (width n : Nat) : Except Fault Nat :=
  if n < width then .ok n else .error (.defect .wideShift)

/-- The word of `width` bits in which only bit `n` is set. -/
def bit (width n : Nat) : Except Fault Nat := do
  return 1 <<< (← shiftAmount width n)

/-- The item of a list at an index. -/
def item {α : Type} (items : List α) (index : Nat) : Except Fault α :=
  match items[index]? with
  | some a => .ok a
  | none => .error (.defect .index)

/-- The items of a list in front of an index, and the others. -/
def splitAt {α : Type} (items : List α) (index : Nat) : Except Fault (List α × List α) :=
  if index ≤ items.length then .ok (items.take index, items.drop index)
  else .error (.defect .index)

/-! ### Runs of several steps -/

section Steps

variable {ε α β : Type} {x : Except ε α} {f : α → Except ε β} {a : α} {b : β}

/-- A first step that succeeds hands its value to what follows. -/
theorem bind_ok (h : x = .ok a) : (x >>= f) = f a := by
  subst h
  rfl

/-- A run of two steps that succeeds has a first step that succeeds. -/
theorem ok_of_bind (h : (x >>= f) = .ok b) : ∃ a, x = .ok a ∧ f a = .ok b := by
  cases x with
  | error fault => cases h
  | ok a => exact ⟨a, rfl, h⟩

/-- A first step that is chosen by a condition succeeds in either case. -/
theorem ok_of_bindIf {c : Prop} [Decidable c] {y : Except ε α}
    (h : (if c then x >>= f else y >>= f) = .ok b) :
    ∃ a, (if c then x else y) = .ok a ∧ f a = .ok b := by
  by_cases hc : c
  · rw [if_pos hc] at h ⊢
    exact ok_of_bind h
  · rw [if_neg hc] at h ⊢
    exact ok_of_bind h

end Steps

/-! ### Values within their ranges -/

theorem sub_of_le {a b : Nat} (h : b ≤ a) : sub a b = .ok (a - b) := if_pos h

theorem within_of_lt {width n : Nat} (h : n < 1 <<< width) : within width n = .ok n := if_pos h

theorem atMost_of_le {limit n : Nat} (h : n ≤ limit) : atMost limit n = .ok n := if_pos h

theorem shiftAmount_of_lt {width n : Nat} (h : n < width) : shiftAmount width n = .ok n := if_pos h

theorem bit_of_lt {width n : Nat} (h : n < width) : bit width n = .ok (1 <<< n) := by
  rw [bit, shiftAmount_of_lt h]
  rfl

theorem item_of_getElem? {α : Type} {items : List α} {index : Nat} {a : α}
    (h : items[index]? = some a) : item items index = .ok a := by
  rw [item, h]

theorem splitAt_of_le {α : Type} {items : List α} {index : Nat} (h : index ≤ items.length) :
    splitAt items index = .ok (items.take index, items.drop index) := if_pos h

/-! ### What a success tells -/

theorem sub_eq_ok {a b n : Nat} (h : sub a b = .ok n) : b ≤ a ∧ n = a - b := by
  unfold sub at h
  split at h
  · case isTrue hle => cases h; exact ⟨hle, rfl⟩
  · cases h

theorem within_eq_ok {width n m : Nat} (h : within width n = .ok m) : n < 1 <<< width ∧ m = n := by
  unfold within at h
  split at h
  · case isTrue hlt => cases h; exact ⟨hlt, rfl⟩
  · cases h

theorem atMost_eq_ok {limit n m : Nat} (h : atMost limit n = .ok m) : n ≤ limit ∧ m = n := by
  unfold atMost at h
  split at h
  · case isTrue hle => cases h; exact ⟨hle, rfl⟩
  · cases h

theorem shiftAmount_eq_ok {width n amount : Nat} (h : shiftAmount width n = .ok amount) :
    n < width ∧ amount = n := by
  unfold shiftAmount at h
  split at h
  · case isTrue hlt => cases h; exact ⟨hlt, rfl⟩
  · cases h

theorem bit_eq_ok {width n m : Nat} (h : bit width n = .ok m) : n < width ∧ m = 1 <<< n := by
  obtain ⟨amount, hamount, hbit⟩ := ok_of_bind h
  obtain ⟨hlt, rfl⟩ := shiftAmount_eq_ok hamount
  exact ⟨hlt, (Except.ok.inj hbit).symm⟩

end DolbyVision.Checked
