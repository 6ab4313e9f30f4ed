/-
**The parts of an RPU are written without a defect.**

The checks of metadata come upon no defect, whatever its fields hold, and they establish the bounds
on which the writes rely: bit depths from 8 to 16, at least two pivots, an order and a number of
partitions from 1 on, and at most 32 fraction bits.  Pivots that are not in order and numbers that
have no code are refused while they are written, in front of the arithmetic that they would carry
out of its range.

Main results:

* `DolbyVision.Header.clean_validate`, `DolbyVision.Mapping.clean_validate`,
  `DolbyVision.BlockSet.clean_ofList` — **the checks come upon no defect**;
* `DolbyVision.Mapping.clean_put` — **a valid mapping is written or refused**.
-/

import DolbyVision.Proofs.Rpu.Safe

set_option relaxedAutoImplicit false
set_option autoImplicit false

namespace DolbyVision

open Bits Checked

/-! ### Checks -/

namespace Bits.Writer

theorem clean_put {width : Nat} (h64 : width ≤ 64) (value : Nat) (w : Writer) :
    Clean (w.put width value) :=
  .ofExists (exists_put h64 value w)

theorem clean_putFlag (b : Bool) (w : Writer) : Clean (w.putFlag b) :=
  .ofExists (exists_putFlag b w)

theorem clean_putUnsignedCode {n : Nat} (hn : n + 1 < 2 ^ 64) (w : Writer) :
    Clean (w.putUnsignedCode n) :=
  .ofExists (exists_putUnsignedCode hn w)

theorem clean_putSignedCode {n : Int} (hn : 2 * n.natAbs + 1 < 2 ^ 64) (w : Writer) :
    Clean (w.putSignedCode n) :=
  .ofExists (exists_putSignedCode hn w)

end Bits.Writer

/-! ### Coefficients -/

namespace Coefficient

variable {h : Header}

theorem clean_putSigned (hvalid : h.Valid) (w : Writer) (c : Int64) :
    Clean (putSigned w h c) := by
  have hwidth : fractionWidth h ≤ 64 := le_trans hvalid.fraction_le (by decide)
  unfold putSigned
  refine .ite (fun _ => ?_) fun _ => .ofExists (puts_scaled hvalid _ w)
  refine .bindOk (bit_eq hvalid (by decide)) ?_
  refine .ite (fun hwhole => ?_) fun _ => .error not_false
  rw [Nat.one_shiftLeft] at hwhole
  refine (Writer.clean_putSignedCode (by omega) w).bind fun w _ => ?_
  exact Writer.clean_put hwidth _ w

theorem clean_putUnsigned (hvalid : h.Valid) (w : Writer) (c : UInt64) :
    Clean (putUnsigned w h c) := by
  have hwidth : fractionWidth h ≤ 64 := le_trans hvalid.fraction_le (by decide)
  unfold putUnsigned
  refine .ite (fun _ => ?_) fun _ => .ofExists (puts_scaled hvalid _ w)
  refine .bindOk (bit_eq hvalid (by decide)) ?_
  refine .ite (fun hwhole => ?_) fun _ => .error not_false
  rw [Nat.one_shiftLeft] at hwhole
  refine (Writer.clean_putUnsignedCode (by omega) w).bind fun w _ => ?_
  exact Writer.clean_put hwidth _ w

end Coefficient

/-! ### Mappings -/

namespace Mapping

variable {h : Header} {m : Mapping}

/-- Whatever the pivots are, no difference that is computed is negative. -/
theorem clean_putDeltas {width : Nat} (hwidth : width ≤ 16) (w : Writer) (previous : UInt16)
    (pivots : List UInt16) : Clean (putDeltas w width previous pivots) := by
  induction pivots generalizing w previous with
  | nil => exact .ok w
  | cons pivot pivots ih =>
    unfold putDeltas
    refine .check not_false fun hordered => ?_
    refine .bindOk (sub_of_le (UInt16.not_lt.1 hordered)) ?_
    refine .bindOk (bit_eq hwidth) ?_
    refine .check not_false fun _ => ?_
    refine (Writer.clean_put (by omega) _ w).bind fun w _ => ?_
    exact ih w pivot

theorem clean_putCurvePivots (hvalid : h.Valid) {c : Curve} (hshape : c.hasValidShape = true)
    (w : Writer) : Clean (putCurvePivots h w c) := by
  have hdepth := (Header.isBitDepth_iff.1 hvalid.baseLayer).2
  simp only [Curve.hasValidShape, Bool.and_eq_true, decide_eq_true_eq] at hshape
  obtain ⟨⟨htwo, hmax⟩, -⟩ := hshape
  unfold maxPivots at hmax
  refine .bindOk (sub_of_le htwo) ?_
  refine (Writer.clean_putUnsignedCode (by omega) w).bind fun w _ => ?_
  exact clean_putDeltas hdepth w 0 c.pivots

theorem clean_putCoefficients (hvalid : h.Valid) (w : Writer) (coefficients : List Int64) :
    Clean (putCoefficients h w coefficients) :=
  .foldlM (fun c _ w => Coefficient.clean_putSigned hvalid w c) w

theorem clean_putPiece (hvalid : h.Valid) {p : Piece} (horder : p.hasValidOrder = true)
    (w : Writer) : Clean (putPiece h w p) := by
  have hbounds := order_bounds horder
  cases p with
  | polynomial order coefficients =>
    obtain ⟨hpos, hle⟩ : 1 ≤ order.toNat ∧ order.toNat ≤ 3 := hbounds
    refine (Writer.clean_putUnsignedCode (by decide) w).bind fun w _ => ?_
    refine .bindOk (sub_of_le hpos) ?_
    refine (Writer.clean_putUnsignedCode (by omega) w).bind fun w _ => ?_
    refine .bindIf (fun _ => Writer.clean_putFlag false w) (fun _ => .ok w) fun w => ?_
    exact clean_putCoefficients hvalid w _
  | mmr order constant rows =>
    refine (Writer.clean_putUnsignedCode (by decide) w).bind fun w _ => ?_
    refine .bindOk (sub_of_le hbounds.1) ?_
    refine (Writer.clean_put (by decide) _ w).bind fun w _ => ?_
    refine (Coefficient.clean_putSigned hvalid w constant).bind fun w _ => ?_
    exact .foldlM (fun row _ w => clean_putCoefficients hvalid w row.toList) w

theorem clean_putNlqMethod (hvalid : h.Valid) (w : Writer) (m : Mapping) :
    Clean (putNlqMethod h w m) := by
  have hdepth := (Header.isBitDepth_iff.1 hvalid.baseLayer).2
  unfold putNlqMethod
  cases m.nlqMethod with
  | none => exact .ok w
  | some method =>
    refine (Writer.clean_put (by decide) _ w).bind fun w _ => ?_
    exact clean_putDeltas hdepth w 0 m.nlqPivots.toList

theorem clean_putNlq (hvalid : h.Valid) (w : Writer) (n : Nlq) : Clean (putNlq h w n) := by
  have hdepth := (Header.isBitDepth_iff.1 hvalid.enhancementLayer).2
  unfold putNlq
  refine .bindOk (bit_eq hdepth) ?_
  refine .check not_false fun _ => ?_
  refine (Writer.clean_put (by omega) _ w).bind fun w _ => ?_
  refine (Coefficient.clean_putUnsigned hvalid w _).bind fun w _ => ?_
  refine (Coefficient.clean_putUnsigned hvalid w _).bind fun w _ => ?_
  exact Coefficient.clean_putUnsigned hvalid w _

/-- **A valid mapping is written or refused**: it is refused if one of its numbers has no code. -/
theorem clean_put {usesNlq : Bool} (hheader : h.Valid) (hvalid : m.Valid usesNlq) (w : Writer) :
    Clean (put h w m) := by
  have hcurves : ∀ c ∈ m.curves.toList, ∀ w, Clean (putCurvePivots h w c) := fun c hc w =>
    clean_putCurvePivots hheader (hvalid.shape c hc) w
  have hpieces : ∀ c ∈ m.curves.toList, ∀ w, Clean (putPieces h w c) := fun c hc w =>
    .foldlM (fun p hp w => clean_putPiece hheader (hvalid.orders c hc p hp) w) w
  unfold put
  refine (Writer.clean_putUnsignedCode (byte_fits _) w).bind fun w _ => ?_
  refine (Writer.clean_putUnsignedCode (byte_fits _) w).bind fun w _ => ?_
  refine (Clean.foldlM hcurves w).bind fun w _ => ?_
  refine (clean_putNlqMethod hheader w m).bind fun w _ => ?_
  refine .bindOk (sub_of_le (pos_toNat hvalid.partitionsX)) ?_
  refine (Writer.clean_putUnsignedCode (pred_fits _) w).bind fun w _ => ?_
  refine .bindOk (sub_of_le (pos_toNat hvalid.partitionsY)) ?_
  refine (Writer.clean_putUnsignedCode (pred_fits _) w).bind fun w _ => ?_
  refine (Clean.foldlM hpieces w).bind fun w _ => ?_
  refine .ite (fun _ => ?_) fun _ => .ok w
  exact .foldlM (fun n _ w => clean_putNlq hheader w n) w

end Mapping

end DolbyVision
