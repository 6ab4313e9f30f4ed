/-
**Bursts of damage.**

Damage is a pattern of bits that are flipped.  A burst is a pattern, not empty, whose bits lie in a
window that is no wider than the register.  Division sees the damage apart from the data, because it
is linear; the zeros in front of a burst leave an empty register, the window leaves a trace in it,
and the zeros behind the window cannot remove the trace.  It does not matter where the window lies.

Main definitions:

* `DolbyVision.Bits.flipped` — a byte string with the bits of a pattern flipped;
* `DolbyVision.Bits.IsBurst` — the bits of a pattern lie in a window of 32 bits.

Main results:

* `DolbyVision.Crc32.update_xor`, `DolbyVision.Crc32.update_flipped` — sums are divided apart, and
  so is the damage from the data;
* `DolbyVision.Crc32.divide_burst_ne_zero` — **no burst is divided without remainder**.
-/

import DolbyVision.Proofs.Crc32.Division

set_option relaxedAutoImplicit false
set_option autoImplicit false

namespace DolbyVision

namespace Bits

/-! ### Flipping bits -/

/-- A byte string with the bits of a pattern flipped. -/
def flipped (bytes pattern : List UInt8) : List UInt8 :=
  List.zipWith (· ^^^ ·) bytes pattern

theorem length_flipped {bytes pattern : List UInt8} (h : bytes.length = pattern.length) :
    (flipped bytes pattern).length = bytes.length := by
  rw [flipped, List.length_zipWith, ← h, Nat.min_self]

/-- The bits of a damaged byte string. -/
theorem ofBytes_flipped {bytes pattern : List UInt8} (h : bytes.length = pattern.length) :
    ofBytes (flipped bytes pattern) = List.zipWith (· ^^ ·) (ofBytes bytes) (ofBytes pattern) := by
  induction bytes generalizing pattern with
  | nil => rfl
  | cons b bytes ih =>
    cases pattern with
    | nil => cases h
    | cons e pattern =>
      have hlength : (toBits 8 b.toNat).length = (toBits 8 e.toNat).length := by
        rw [length_toBits, length_toBits]
      rw [flipped, List.zipWith_cons_cons, ofBytes_cons, ← flipped, ih (Nat.succ.inj h),
        UInt8.toNat_xor, toBits_xor, ofBytes_cons, ofBytes_cons, List.zipWith_append hlength]

/-- A pattern that is not empty and whose bits lie in a window of 32 bits. -/
structure IsBurst (start : Nat) (pattern : List Bool) : Prop where
  nonempty : true ∈ pattern
  window : ∀ i : Nat, pattern[i]? = some true → start ≤ i ∧ i < start + 32

instance (start : Nat) (pattern : List Bool) : Decidable (IsBurst start pattern) :=
  decidable_of_iff
    (true ∈ pattern ∧
      ∀ i < pattern.length, pattern[i]? = some true → start ≤ i ∧ i < start + 32)
    ⟨fun h => ⟨h.1, fun i hi => h.2 i (List.getElem?_eq_some_iff.1 hi).1 hi⟩,
      fun h => ⟨h.nonempty, fun i _ => h.window i⟩⟩

/-- A string without a set bit. -/
theorem eq_replicate_false {bits : List Bool} (h : ∀ i : Nat, bits[i]? ≠ some true) :
    bits = List.replicate bits.length false := by
  refine List.eq_replicate_iff.2 ⟨rfl, fun b hb => ?_⟩
  obtain ⟨i, hi⟩ := List.mem_iff_getElem?.1 hb
  cases b with
  | false => rfl
  | true => exact absurd hi (h i)

/-- A burst is its window between zeros. -/
theorem IsBurst.eq_append {start : Nat} {pattern : List Bool} (h : IsBurst start pattern) :
    ∃ before window behind, pattern =
        List.replicate before false ++ window ++ List.replicate behind false ∧
      window.length ≤ 32 ∧ true ∈ window := by
  have hbefore : pattern.take start = List.replicate (pattern.take start).length false := by
    refine eq_replicate_false fun i hi => ?_
    rw [List.getElem?_take] at hi
    split at hi
    · have hwindow := (h.window _ hi).1
      omega
    · cases hi
  have hbehind : pattern.drop (start + 32) =
      List.replicate (pattern.drop (start + 32)).length false := by
    refine eq_replicate_false fun i hi => ?_
    rw [List.getElem?_drop] at hi
    have hwindow := (h.window _ hi).2
    omega
  have hparts : pattern = pattern.take start ++ (pattern.drop start).take 32 ++
      pattern.drop (start + 32) := by
    rw [← List.drop_drop, List.append_assoc, List.take_append_drop, List.take_append_drop]
  rw [hbefore, hbehind] at hparts
  refine ⟨_, _, _, hparts, List.length_take_le .., ?_⟩
  have hset := h.nonempty
  rw [hparts] at hset
  simpa [List.mem_append, List.mem_replicate] using hset

end Bits

namespace Crc32

open Bits

/-- **Sums of byte strings are divided apart.** -/
theorem update_xor (s t : UInt32) {a b : List UInt8} (h : a.length = b.length) :
    update (s ^^^ t) (flipped a b) = update s a ^^^ update t b := by
  have hlength : (ofBytes a).length = (ofBytes b).length := by
    rw [length_ofBytes, length_ofBytes, h]
  rw [update_eq_divide, update_eq_divide, update_eq_divide, ofBytes_flipped h,
    divide_zipWith _ _ hlength]

/-- **The damage is divided apart from the data.** -/
theorem update_flipped (register : UInt32) {bytes pattern : List UInt8}
    (h : bytes.length = pattern.length) :
    update register (flipped bytes pattern) =
      update register bytes ^^^ divide 0 (ofBytes pattern) := by
  rw [← update_eq_divide, ← update_xor _ _ h, UInt32.xor_zero]

/-- **No burst is divided without remainder.** -/
theorem divide_burst_ne_zero {start : Nat} {pattern : List Bool} (h : IsBurst start pattern) :
    divide 0 pattern ≠ 0 := by
  obtain ⟨before, window, behind, rfl, hfits, hset⟩ := h.eq_append
  have hempty : divide 0 (List.replicate before false) = 0 := by
    rw [divide_zeros, shifts_eq_zero_iff]
  have htrace : divide 0 window ≠ 0 := by
    rw [divide_eq_shifts 0 hfits, UInt32.zero_xor, ne_eq, shifts_eq_zero_iff]
    exact top_ne_zero hfits hset
  rw [divide_append, divide_append, hempty, divide_zeros, ne_eq, shifts_eq_zero_iff]
  exact htrace

end Crc32

end DolbyVision
