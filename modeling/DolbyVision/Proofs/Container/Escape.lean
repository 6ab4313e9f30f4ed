/-
**The byte strings that escaping makes.**

In an escaped byte string no byte of at most 2 stands behind two zero bytes, and a byte 3 stands
there only in front of a byte of at most 3.  These conditions are also enough: every byte string
that meets them is made by escaping, namely of what is left of it without its escapes.

Escaping and its inverse count zero bytes, and so does `escapedAfter`, which decides the conditions
in one pass.  The three counts agree along a byte string, so what is shown of escaping is shown in
terms of that pass.

Main definitions:

* `DolbyVision.Nal.IsEscaped` — the two conditions;
* `DolbyVision.Nal.escapedAfter` — the pass that decides them.

Main results:

* `DolbyVision.Nal.escapedAfter_iff` — **one pass decides the conditions**;
* `DolbyVision.Nal.isEscaped_escape` — **what was escaped meets them**;
* `DolbyVision.Nal.escape_unescape` — **what meets them is escaped as it was**, once its escapes are
  removed;
* `DolbyVision.Nal.escape_bijOn` — escaping is a bijection onto these byte strings.
-/

import DolbyVision.Proofs.Container.Nal
import Mathlib.Data.Set.Function
import Mathlib.Tactic.IntervalCases

set_option relaxedAutoImplicit false
set_option autoImplicit false

namespace DolbyVision.Nal

/-! ### The conditions -/

/-- A byte string in which no byte of at most 2 stands behind two zero bytes, and a byte 3 stands
there only in front of a byte of at most 3. -/
structure IsEscaped (bytes : List UInt8) : Prop where
  delimited : ∀ b back, 0 :: 0 :: b :: back <:+ bytes → 2 < b
  followed : ∀ back, 0 :: 0 :: 3 :: back <:+ bytes → ∃ b ∈ back.head?, b ≤ 3

variable {b : UInt8} {bytes : List UInt8} {zeros : Nat}

theorem isEscaped_nil : IsEscaped [] := by
  constructor <;> simp

/-- A byte more in front adds what stands there to the conditions. -/
theorem isEscaped_cons :
    IsEscaped (b :: bytes) ↔
      (∀ c back, b :: bytes = 0 :: 0 :: c :: back →
        2 < c ∧ (c = 3 → ∃ d ∈ back.head?, d ≤ 3)) ∧ IsEscaped bytes := by
  constructor
  · intro h
    refine ⟨?_, fun c back hback => ?_, fun back hback => ?_⟩
    · intro c back heq
      rw [heq] at h
      refine ⟨h.delimited c back List.suffix_rfl, ?_⟩
      rintro rfl
      exact h.followed back List.suffix_rfl
    · exact h.delimited c back (hback.trans (List.suffix_cons b bytes))
    · exact h.followed back (hback.trans (List.suffix_cons b bytes))
  · rintro ⟨hfront, h⟩
    constructor
    · intro c back hback
      rcases List.suffix_cons_iff.1 hback with heq | hback
      · exact (hfront c back heq.symm).1
      · exact h.delimited c back hback
    · intro back hback
      rcases List.suffix_cons_iff.1 hback with heq | hback
      · exact (hfront 3 back heq.symm).2 rfl
      · exact h.followed back hback

theorem isEscaped_cons_of_ne_zero (hb : b ≠ 0) : IsEscaped (b :: bytes) ↔ IsEscaped bytes := by
  simp [isEscaped_cons (b := b), hb]

theorem isEscaped_zero_cons_of_ne_zero (hb : b ≠ 0) :
    IsEscaped (0 :: b :: bytes) ↔ IsEscaped bytes := by
  simp [isEscaped_cons (b := 0), isEscaped_cons_of_ne_zero hb, hb]

/-- A byte behind two zero bytes is looked at together with them. -/
theorem isEscaped_zeros_cons :
    IsEscaped (0 :: 0 :: b :: bytes) ↔
      2 < b ∧ (b = 3 → ∃ c ∈ bytes.head?, c ≤ 3) ∧ IsEscaped (0 :: b :: bytes) := by
  rw [isEscaped_cons, ← and_assoc]
  simp

/-- A byte of at most 3 behind two zero bytes is an escape, in front of what is escaped. -/
theorem isEscaped_zeros_cons_of_le (hb : b ≤ 3) :
    IsEscaped (0 :: 0 :: b :: bytes) ↔
      b = 3 ∧ (∃ c ∈ bytes.head?, c ≤ 3) ∧ IsEscaped bytes := by
  have hescape : 2 < b ↔ b = 3 := by
    rw [UInt8.lt_iff_toNat_lt, ← UInt8.toNat_inj]
    rw [UInt8.le_iff_toNat_le] at hb
    simp only [UInt8.reduceToNat] at hb ⊢
    omega
  rw [isEscaped_zeros_cons, hescape]
  constructor
  · rintro ⟨rfl, hhead, h⟩
    exact ⟨rfl, hhead rfl, (isEscaped_zero_cons_of_ne_zero (by decide)).1 h⟩
  · rintro ⟨rfl, hhead, h⟩
    exact ⟨rfl, fun _ => hhead, (isEscaped_zero_cons_of_ne_zero (by decide)).2 h⟩

/-! ### One pass -/

/-- Whether a byte string that follows `zeros` zero bytes meets the conditions together with
them. -/
def escapedAfter : Nat → List UInt8 → Bool
  | _, [] => true
  | zeros, b :: bytes =>
    if 2 ≤ zeros ∧ b ≤ 3 then b == 3 && bytes.head?.any (· ≤ 3) && escapedAfter 0 bytes
    else escapedAfter (zeroRun zeros b) bytes

@[simp] theorem zeroRun_zero : zeroRun zeros 0 = zeros + 1 := if_pos rfl

theorem zeroRun_of_ne_zero (hb : b ≠ 0) : zeroRun zeros b = 0 := if_neg hb

/-- A byte that needs no escape and is none leaves a shorter byte string behind as many zero bytes
as are counted.  They are never more than two. -/
theorem isEscaped_replicate_cons (bytes : List UInt8) (hzeros : zeros ≤ 2)
    (hb : ¬ (2 ≤ zeros ∧ b ≤ 3)) :
    zeroRun zeros b ≤ 2 ∧
      (IsEscaped (List.replicate zeros 0 ++ b :: bytes) ↔
        IsEscaped (List.replicate (zeroRun zeros b) 0 ++ bytes)) := by
  by_cases hzero : b = 0
  · subst hzero
    have hlt : zeros < 2 := by
      by_contra hle
      exact hb ⟨Nat.not_lt.1 hle, by decide⟩
    rw [zeroRun_zero, List.replicate_succ', List.append_assoc]
    exact ⟨hlt, Iff.rfl⟩
  · rw [zeroRun_of_ne_zero hzero]
    refine ⟨Nat.zero_le 2, ?_⟩
    interval_cases zeros
    · exact isEscaped_cons_of_ne_zero hzero
    · exact isEscaped_zero_cons_of_ne_zero hzero
    · have hhigh : 3 < b := by simpa using hb
      have hlarge : 2 < b := UInt8.lt_trans (by decide) hhigh
      have hplain : b ≠ 3 := (UInt8.ne_of_lt hhigh).symm
      change IsEscaped (0 :: 0 :: b :: bytes) ↔ IsEscaped bytes
      rw [isEscaped_zeros_cons, isEscaped_zero_cons_of_ne_zero hzero]
      simp [hlarge, hplain]

/-- **One pass decides the conditions**, also for what follows one or two zero bytes. -/
theorem escapedAfter_iff (hzeros : zeros ≤ 2) :
    escapedAfter zeros bytes = true ↔ IsEscaped (List.replicate zeros 0 ++ bytes) := by
  induction bytes generalizing zeros with
  | nil =>
    interval_cases zeros <;> simp [escapedAfter, isEscaped_cons, isEscaped_nil]
  | cons b bytes ih =>
    rw [escapedAfter]
    split
    · case isTrue hlow =>
      obtain rfl : zeros = 2 := le_antisymm hzeros hlow.1
      change _ ↔ IsEscaped (0 :: 0 :: b :: bytes)
      rw [isEscaped_zeros_cons_of_le hlow.2, Bool.and_eq_true, Bool.and_eq_true, beq_iff_eq,
        ih (Nat.zero_le 2), Option.any_eq_true, and_assoc]
      simp
    · case isFalse hhigh =>
      obtain ⟨hle, hsame⟩ := isEscaped_replicate_cons bytes hzeros hhigh
      rw [ih hle, hsame]

/-- The conditions can be decided, by the pass that starts in front of the byte string. -/
instance : DecidablePred IsEscaped := fun bytes =>
  decidable_of_iff (escapedAfter 0 bytes = true) (escapedAfter_iff (Nat.zero_le 2))

/-- Escapes may follow one another closely, but nothing ends with one. -/
example : IsEscaped [0, 0, 3, 0, 0, 3, 3] ∧ ¬ IsEscaped [0, 0, 3, 0, 0, 3] := by decide

/-! ### Escaping -/

/-- Escaping passes, with the count of zero bytes with which it was done: an inserted byte 3 resets
both counts and stands in front of the byte for which it was inserted. -/
theorem escapedAfter_escapeAfter (zeros : Nat) (bytes : List UInt8) :
    escapedAfter zeros (escapeAfter zeros bytes) = true := by
  induction bytes generalizing zeros with
  | nil => rfl
  | cons b bytes ih =>
    by_cases hlow : 2 ≤ zeros ∧ b ≤ 3
    · simp [escapeAfter, escapedAfter, hlow, ih]
    · simp [escapeAfter, escapedAfter, hlow, ih]

/-- **What was escaped meets the conditions.** -/
theorem isEscaped_escape (bytes : List UInt8) : IsEscaped (escape bytes) :=
  (escapedAfter_iff (Nat.zero_le 2)).1 (escapedAfter_escapeAfter 0 bytes)

/-- A byte that needs an escape is written as if nothing preceded it, behind the escape. -/
theorem escapeAfter_of_le (hzeros : 2 ≤ zeros) (hb : b ≤ 3) :
    escapeAfter zeros (b :: bytes) = 3 :: escapeAfter 0 (b :: bytes) := by
  simp [escapeAfter, hzeros, hb]

/-- What passes is escaped as it was.  A byte 3 that was removed is inserted again, because the byte
behind it is at most 3 and both counts have reached two. -/
theorem escapeAfter_unescapeAfter (h : escapedAfter zeros bytes = true) :
    escapeAfter zeros (unescapeAfter zeros bytes) = bytes := by
  induction bytes generalizing zeros with
  | nil => rfl
  | cons b bytes ih =>
    rw [escapedAfter] at h
    split at h
    · case isTrue hlow =>
      rw [Bool.and_eq_true, Bool.and_eq_true, beq_iff_eq, Option.any_eq_true] at h
      obtain ⟨⟨rfl, c, hhead, hc⟩, hrest⟩ := h
      obtain ⟨back, rfl⟩ := List.head?_eq_some_iff.1 hhead
      have hkept : unescapeAfter 0 (c :: back) = c :: unescapeAfter (zeroRun 0 c) back := by
        simp [unescapeAfter]
      have hescaped := ih hrest
      rw [unescapeAfter, if_pos ⟨hlow.1, rfl⟩]
      rw [hkept] at hescaped ⊢
      rw [escapeAfter_of_le hlow.1 (of_decide_eq_true hc), hescaped]
    · case isFalse hhigh =>
      have hplain : ¬ (2 ≤ zeros ∧ b = 3) := by
        rintro ⟨hzeros, rfl⟩
        exact hhigh ⟨hzeros, by decide⟩
      rw [unescapeAfter, if_neg hplain, escapeAfter, if_neg hhigh, ih h]

/-- **What meets the conditions is escaped as it was**, once its escapes are removed. -/
theorem escape_unescape (h : IsEscaped bytes) : escape (unescape bytes) = bytes :=
  escapeAfter_unescapeAfter ((escapedAfter_iff (Nat.zero_le 2)).2 h)

/-- **Escaping is a bijection** from all byte strings onto those that meet the conditions, and
removing the escapes is its inverse. -/
theorem escape_bijOn :
    Set.BijOn escape Set.univ {bytes | IsEscaped bytes} ∧
      Set.InvOn unescape escape Set.univ {bytes | IsEscaped bytes} := by
  have hinverse : Set.InvOn unescape escape Set.univ {bytes | IsEscaped bytes} := by
    constructor
    · intro bytes _
      exact unescape_escape bytes
    · intro bytes hbytes
      exact escape_unescape hbytes
  have hescape : Set.MapsTo escape Set.univ {bytes | IsEscaped bytes} :=
    fun bytes _ => isEscaped_escape bytes
  exact ⟨hinverse.bijOn hescape (Set.mapsTo_univ _ _), hinverse⟩

end DolbyVision.Nal
