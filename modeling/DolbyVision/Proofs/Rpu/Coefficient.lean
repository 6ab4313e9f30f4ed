/-
**Coefficients are read back.**

A fixed-point coefficient is split into its integer part and its fraction and put together again,
without loss.  A floating-point coefficient is rounded to binary32 on the way, so what is read back
is the number that its code stands for.

Main definitions:

* `DolbyVision.Coefficient.codedSigned`, `codedUnsigned` — what the bits of a coefficient keep of
  it.

Main results:

* `DolbyVision.Coefficient.toInt_join`, `toNat_join` — with at most 32 fraction bits a word is put
  together without a carry out of it;
* `DolbyVision.Coefficient.conveys_signed`, `conveys_unsigned` — **a coefficient is read as it was
  coded**;
* `DolbyVision.Coefficient.codedSigned_of_fixedPoint`, `codedUnsigned_of_fixedPoint` — nothing of a
  fixed-point coefficient is lost.
-/

import DolbyVision.Proofs.Bits.Conveys
import DolbyVision.Rpu.Coefficient

set_option relaxedAutoImplicit false
set_option autoImplicit false

namespace DolbyVision.Coefficient

open Bits

/-! ### Words and their parts -/

theorem smod_amount {width : Nat} (h64 : width < 64) :
    (BitVec.ofNat 64 width).smod 64 = BitVec.ofNat 64 width := by
  have hall : ∀ i : Fin 64, (BitVec.ofNat 64 i).smod 64 = BitVec.ofNat 64 i := by decide
  exact hall ⟨width, h64⟩

/-- A shifted integer part and a fraction make up a signed word. -/
theorem shiftLeft_add_signed {width : Nat} (h64 : width < 64) (whole : Int) (fraction : Nat) :
    (Int64.ofInt whole <<< Int64.ofNat width) + Int64.ofNat fraction =
      Int64.ofInt (whole * (2 ^ width : Nat) + fraction) := by
  have hlt : width < 2 ^ 64 := by omega
  -- Both sides are compared as bit vectors, where the shift is a multiplication.
  apply Int64.toBitVec_inj.1
  rw [Int64.toBitVec_add, Int64.toBitVec_shiftLeft, Int64.toBitVec_ofNat', Int64.toBitVec_ofNat',
    Int64.toBitVec_ofInt, Int64.toBitVec_ofInt, BitVec.ofInt_add, BitVec.ofInt_mul,
    BitVec.ofInt_natCast, BitVec.ofInt_natCast, smod_amount h64, BitVec.shiftLeft_eq',
    BitVec.toNat_ofNat, Nat.mod_eq_of_lt hlt, BitVec.shiftLeft_eq_mul_twoPow, BitVec.twoPow_eq]
  congr 2
  apply BitVec.eq_of_toNat_eq
  simp [Nat.shiftLeft_eq]

/-- A remainder fits in as many bits as there are below the quotient. -/
theorem toNat_emod_lt (v : Int) (width : Nat) : (v % (2 ^ width : Nat)).toNat < 2 ^ width := by
  have hpos : (0 : Int) < (2 ^ width : Nat) := by positivity
  have hlt := Int.emod_lt_of_pos v hpos
  omega

/-- The quotient and the remainder of a signed word make up the word.  The quotient is rounded down,
so the remainder is never negative. -/
theorem shiftLeft_add_parts {width : Nat} (h64 : width < 64) (c : Int64) :
    (Int64.ofInt (c.toInt / (2 ^ width : Nat)) <<< Int64.ofNat width) +
      Int64.ofNat (c.toInt % (2 ^ width : Nat)).toNat = c := by
  have hpos : (0 : Int) < (2 ^ width : Nat) := by positivity
  have hnonneg := Int.emod_nonneg c.toInt hpos.ne'
  rw [shiftLeft_add_signed h64, Int.toNat_of_nonneg hnonneg, Int.ediv_mul_add_emod,
    Int64.ofInt_toInt]

/-- The quotient and the remainder of an unsigned word make up the word. -/
theorem shiftLeft_add_unsigned {width : Nat} (h64 : width < 64) (c : UInt64) :
    (UInt64.ofNat (c.toNat / 2 ^ width) <<< UInt64.ofNat width) +
      UInt64.ofNat (c.toNat % 2 ^ width) = c := by
  have hc := c.toNat_lt
  have hmul := Nat.div_mul_le_self c.toNat (2 ^ width)
  have hdiv := Nat.div_le_self c.toNat (2 ^ width)
  have hmod := Nat.mod_le c.toNat (2 ^ width)
  have hquotient : c.toNat / 2 ^ width < 2 ^ 64 := by omega
  have hproduct : c.toNat / 2 ^ width * 2 ^ width < 2 ^ 64 := by omega
  have hremainder : c.toNat % 2 ^ width < 2 ^ 64 := by omega
  apply UInt64.toNat_inj.1
  rw [UInt64.toNat_add, UInt64.toNat_shiftLeft, Reader.toNat_amount h64, UInt64.toNat_ofNat',
    UInt64.toNat_ofNat', Nat.shiftLeft_eq, Nat.mod_eq_of_lt hquotient, Nat.mod_eq_of_lt hproduct,
    Nat.mod_eq_of_lt hremainder, Nat.div_add_mod', Nat.mod_eq_of_lt hc]

/-! ### Words that are put together -/

section Joined

variable {width fraction : Nat}

/-- An integer part that has a code, moved up, leaves room for a fraction in its word. -/
theorem join_within (h32 : width ≤ 32) {whole : Int} (hwhole : whole.natAbs < 2 ^ 31)
    (hfraction : fraction < 2 ^ width) :
    -2 ^ 63 ≤ whole * (2 ^ width : Nat) + fraction ∧
      whole * (2 ^ width : Nat) + fraction < 2 ^ 63 := by
  have hpow : 2 ^ width ≤ 2 ^ 32 := Nat.pow_le_pow_right (by decide) h32
  -- The product stays away from the ends of the word.
  have hproduct : (whole * (2 ^ width : Nat)).natAbs ≤ (2 ^ 31 - 1) * 2 ^ 32 := by
    rw [Int.natAbs_mul, Int.natAbs_natCast]
    exact Nat.mul_le_mul (Nat.le_pred_of_lt hwhole) hpow
  omega

/-- **A signed word is put together without a carry out of it.** -/
theorem toInt_join (h32 : width ≤ 32) {whole : Int} (hwhole : whole.natAbs < 2 ^ 31)
    (hfraction : fraction < 2 ^ width) :
    ((Int64.ofInt whole <<< Int64.ofNat width) + Int64.ofNat fraction).toInt =
      whole * (2 ^ width : Nat) + fraction := by
  obtain ⟨hlo, hhi⟩ := join_within h32 hwhole hfraction
  rw [shiftLeft_add_signed (by omega), Int64.toInt_ofInt_of_le hlo hhi]

theorem toInt_shifted (h32 : width ≤ 32) {whole : Int} (hwhole : whole.natAbs < 2 ^ 31) :
    (Int64.ofInt whole <<< Int64.ofNat width).toInt = whole * (2 ^ width : Nat) := by
  simpa using toInt_join h32 hwhole (Nat.two_pow_pos width)

/-- The parts of a sum are its quotient, rounded down, and its remainder. -/
theorem signedParts_of_sum {v whole : Int} (hsum : v = whole * (2 ^ width : Nat) + fraction)
    (hfraction : fraction < 2 ^ width) :
    v / (2 ^ width : Nat) = whole ∧ (v % (2 ^ width : Nat)).toNat = fraction := by
  have hpos : (0 : Int) < (2 ^ width : Nat) := by positivity
  have hparts : (fraction : Int) + (2 ^ width : Nat) * whole = v := by
    rw [hsum, Int.add_comm, Int.mul_comm]
  obtain ⟨hquotient, hremainder⟩ :=
    (Int.ediv_emod_unique hpos).2 ⟨hparts, Int.natCast_nonneg _, Int.ofNat_lt.2 hfraction⟩
  exact ⟨hquotient, by rw [hremainder, Int.toNat_natCast]⟩

/-- An integer part without a sign leaves room for a fraction, too. -/
theorem join_lt (h32 : width ≤ 32) {whole : Nat} (hwhole : whole ≤ maxCode)
    (hfraction : fraction < 2 ^ width) : whole * 2 ^ width + fraction < 2 ^ 64 := by
  have hpow : 2 ^ width ≤ 2 ^ 32 := Nat.pow_le_pow_right (by decide) h32
  have hproduct : whole * 2 ^ width ≤ maxCode * 2 ^ 32 := Nat.mul_le_mul hwhole hpow
  unfold maxCode at hproduct
  omega

theorem toNat_shifted (h32 : width ≤ 32) {whole : Nat} (hwhole : whole ≤ maxCode) :
    (UInt64.ofNat whole <<< UInt64.ofNat width).toNat = whole * 2 ^ width := by
  have hproduct : whole * 2 ^ width < 2 ^ 64 := join_lt h32 hwhole (Nat.two_pow_pos width)
  have hword : whole < 2 ^ 64 := by unfold maxCode at hwhole; omega
  rw [UInt64.toNat_shiftLeft, Reader.toNat_amount (by omega), UInt64.toNat_ofNat',
    Nat.shiftLeft_eq, Nat.mod_eq_of_lt hword, Nat.mod_eq_of_lt hproduct]

/-- **An unsigned word is put together without a carry out of it.** -/
theorem toNat_join (h32 : width ≤ 32) {whole : Nat} (hwhole : whole ≤ maxCode)
    (hfraction : fraction < 2 ^ width) :
    ((UInt64.ofNat whole <<< UInt64.ofNat width) + UInt64.ofNat fraction).toNat =
      whole * 2 ^ width + fraction := by
  have hsum := join_lt h32 hwhole hfraction
  rw [UInt64.toNat_add, toNat_shifted h32 hwhole, UInt64.toNat_ofNat',
    Nat.mod_eq_of_lt (by omega : fraction < 2 ^ 64), Nat.mod_eq_of_lt hsum]

theorem unsignedParts_of_sum {v whole : Nat} (hsum : v = whole * 2 ^ width + fraction)
    (hfraction : fraction < 2 ^ width) : v / 2 ^ width = whole ∧ v % 2 ^ width = fraction := by
  refine (Nat.div_mod_unique (Nat.two_pow_pos width)).2 ⟨?_, hfraction⟩
  rw [hsum, Nat.add_comm, Nat.mul_comm]

end Joined

/-! ### What is coded -/

/-- The number of units in one. -/
def unitsInOne (h : Header) : Float :=
  (UInt64.ofNat (1 <<< fractionWidth h)).toFloat

/-- The number that the binary32 code of a number of units stands for, in the same units. -/
def codedScaled (h : Header) (units : Float) : Float :=
  (Float32.ofBits (units / unitsInOne h).toFloat32.toBits).toFloat * unitsInOne h

/-- What the bits of a coefficient of a curve keep of it. -/
def codedSigned (h : Header) (c : Int64) : Int64 :=
  if h.coefficientType = Header.fixedPoint then c else (codedScaled h c.toFloat).toInt64

/-- What the bits of a coefficient of the inverse quantization keep of it. -/
def codedUnsigned (h : Header) (c : UInt64) : UInt64 :=
  if h.coefficientType = Header.fixedPoint then c else (codedScaled h c.toFloat).toUInt64

variable {h : Header}

theorem codedSigned_of_fixedPoint (htype : h.coefficientType = Header.fixedPoint) (c : Int64) :
    codedSigned h c = c := if_pos htype

theorem codedUnsigned_of_fixedPoint (htype : h.coefficientType = Header.fixedPoint) (c : UInt64) :
    codedUnsigned h c = c := if_pos htype

/-! ### Reading back -/

variable {size : Nat} {w w' : Writer}

theorem scale_of_lt (h64 : fractionWidth h < 64) : scale h = .ok (unitsInOne h) :=
  Checked.bind_ok (Checked.bit_of_lt h64)

theorem scale_eq_ok {one : Float} (hscale : scale h = .ok one) :
    fractionWidth h < 64 ∧ one = unitsInOne h := by
  obtain ⟨bit, hbit, hone⟩ := Checked.ok_of_bind hscale
  obtain ⟨h64, rfl⟩ := Checked.bit_eq_ok hbit
  exact ⟨h64, (Except.ok.inj hone).symm⟩

theorem conveys_scaled {units : Float} (hput : putScaled w h units = .ok w') :
    Conveys size w w' (readScaled h) (codedScaled h units) := by
  obtain ⟨one, hone, hput⟩ := Checked.ok_of_bind hput
  obtain ⟨h64, rfl⟩ := scale_eq_ok hone
  have hword : Conveys size w w' (Reader.u32 32) (units / unitsInOne h).toFloat32.toBits :=
    (conveys_u32 (by decide) hput).congr (lower32_thirtyTwo _)
  refine hword.bind ((Conveys.ofExcept (scale_of_lt h64)).bind ?_)
  exact Conveys.pure _

/-- **A coefficient of a curve is read as it was coded.** -/
theorem conveys_signed {c : Int64} (hput : putSigned w h c = .ok w') :
    Conveys size w w' (readSigned h) (codedSigned h c) := by
  unfold putSigned at hput
  unfold readSigned
  split at hput
  · case isTrue htype =>
    obtain ⟨unit, hunit, hput⟩ := Checked.ok_of_bind hput
    obtain ⟨h63, rfl⟩ := Checked.bit_eq_ok hunit
    have h64 : fractionWidth h < 64 := by omega
    rw [Nat.one_shiftLeft] at hput
    dsimp only at hput
    split at hput
    · case isTrue hwhole =>
      obtain ⟨w₁, hcode, hfraction⟩ := Checked.ok_of_bind hput
      rw [if_pos htype, codedSigned_of_fixedPoint htype]
      refine (conveys_signedCode hwhole hcode).bind ((conveys_bits hfraction).bind ?_)
      refine (Conveys.ofExcept (Checked.shiftAmount_of_lt h64)).bind ((Conveys.pure _).congr ?_)
      rw [Nat.mod_eq_of_lt (toNat_emod_lt c.toInt _), shiftLeft_add_parts h64]
    · cases hput
  · case isFalse htype =>
    rw [if_neg htype, codedSigned, if_neg htype]
    exact (conveys_scaled hput).andThen Float.toInt64

/-- **A coefficient of the inverse quantization is read as it was coded.** -/
theorem conveys_unsigned {c : UInt64} (hput : putUnsigned w h c = .ok w') :
    Conveys size w w' (readUnsigned h) (codedUnsigned h c) := by
  unfold putUnsigned at hput
  unfold readUnsigned
  split at hput
  · case isTrue htype =>
    obtain ⟨unit, hunit, hput⟩ := Checked.ok_of_bind hput
    obtain ⟨h64, rfl⟩ := Checked.bit_eq_ok hunit
    rw [Nat.one_shiftLeft] at hput
    dsimp only at hput
    split at hput
    · case isTrue hwhole =>
      obtain ⟨w₁, hcode, hfraction⟩ := Checked.ok_of_bind hput
      have hmax : c.toNat / 2 ^ fractionWidth h ≤ maxCode := by unfold maxCode; omega
      rw [if_pos htype, codedUnsigned_of_fixedPoint htype]
      refine (conveys_unsignedCode hmax hcode).bind ((conveys_bits hfraction).bind ?_)
      refine (Conveys.ofExcept (Checked.shiftAmount_of_lt h64)).bind ((Conveys.pure _).congr ?_)
      rw [Nat.mod_mod, shiftLeft_add_unsigned h64]
    · cases hput
  · case isFalse htype =>
    rw [if_neg htype, codedUnsigned, if_neg htype]
    exact (conveys_scaled hput).andThen Float.toUInt64

end DolbyVision.Coefficient
