/-
**A header is read back.**

A header that passes its checks has fields that a reader accepts.  What a reader gets is the header
with its narrow fields cut to their width (`Header.coded`), which is the header itself if they fit.

Main definitions:

* `DolbyVision.Header.Valid` — what the checks of a header establish;
* `DolbyVision.Header.Fits` — the narrow fields of a header fit in their bits;
* `DolbyVision.Header.coded` — what the bits of a header keep of it.

Main results:

* `DolbyVision.Header.valid_of_validate` — the checks establish `Header.Valid`;
* `DolbyVision.Header.conveys` — **a valid header is read as it was coded**.
-/

import DolbyVision.Proofs.Bits.Conveys
import DolbyVision.Rpu.Header

set_option relaxedAutoImplicit false
set_option autoImplicit false

namespace DolbyVision.Header

open Bits

/-! ### Valid headers -/

theorem isBitDepth_iff {depth : UInt8} :
    isBitDepth depth = true ↔ 8 ≤ depth.toNat ∧ depth.toNat ≤ 16 := by
  simp [isBitDepth, UInt8.le_iff_toNat_le]

/-- What the checks of a header establish. -/
structure Valid (h : Header) : Prop where
  format_mask : h.rpuFormat &&& formatMask = 0
  format_le : h.rpuFormat ≤ maxFormat
  baseLayer : isBitDepth h.baseLayerBitDepth = true
  enhancementLayer : isBitDepth h.enhancementLayerBitDepth = true
  output : isBitDepth h.outputBitDepth = true
  coefficient :
    (h.coefficientType = fixedPoint ∧ isFractionWidth h.coefficientLog2Denominator.toNat = true) ∨
      (h.coefficientType = floatingPoint ∧ h.coefficientLog2Denominator = floatingPointFraction)

/-- A header that passes its checks is valid. -/
theorem valid_of_validate {h : Header} (hok : h.validate = .ok ()) : h.Valid := by
  unfold validate at hok
  obtain ⟨hformat, hok⟩ := Checked.ok_of_check hok
  obtain ⟨hdepth, hok⟩ := Checked.ok_of_check hok
  rw [not_or, not_not, UInt16.not_lt] at hformat
  simp only [Bool.not_eq_true', Bool.and_eq_false_iff, not_or, Bool.not_eq_false] at hdepth
  obtain ⟨⟨hbase, henhancement⟩, houtput⟩ := hdepth
  refine ⟨hformat.1, hformat.2, hbase, henhancement, houtput, ?_⟩
  split at hok
  · case isTrue htype =>
    split at hok
    · cases hok
    · case isFalse hwidth =>
      rw [Bool.not_eq_true', Bool.not_eq_false] at hwidth
      exact Or.inl ⟨htype, hwidth⟩
  · split at hok
    · case isTrue htype =>
      split at hok
      · cases hok
      · case isFalse hwidth => exact Or.inr ⟨htype, not_not.1 hwidth⟩
    · cases hok

/-- Coefficients have at most 32 fraction bits. -/
theorem Valid.fraction_le {h : Header} (hvalid : h.Valid) :
    h.coefficientLog2Denominator.toNat ≤ 32 := by
  rcases hvalid.coefficient with ⟨-, hwidth⟩ | ⟨-, hwidth⟩
  · simp only [isFractionWidth, Bool.and_eq_true, decide_eq_true_eq] at hwidth
    exact hwidth.2
  · rw [hwidth]
    decide

/-! ### What is coded -/

/-- The narrow fields of a header fit in their bits. -/
structure Fits (h : Header) : Prop where
  rpuProfile : h.rpuProfile.toNat < 2 ^ 4
  rpuLevel : h.rpuLevel.toNat < 2 ^ 4
  normalizedIdc : h.normalizedIdc.toNat < 2 ^ 2
  extendedMappingLow : h.extendedMappingLow.toNat < 2 ^ 5
  extendedMappingHigh : h.extendedMappingHigh.toNat < 2 ^ 3

/-- A header with its narrow fields cut to their width. -/
def coded (h : Header) : Header :=
  { h with
    rpuProfile := lower8 4 h.rpuProfile
    rpuLevel := lower8 4 h.rpuLevel
    normalizedIdc := lower8 2 h.normalizedIdc
    extendedMappingLow := lower8 5 h.extendedMappingLow
    extendedMappingHigh := lower8 3 h.extendedMappingHigh }

/-- A header whose fields fit is coded as it is. -/
theorem coded_eq_self {h : Header} (hfits : h.Fits) : h.coded = h := by
  rw [coded, lower8_eq_self hfits.rpuProfile, lower8_eq_self hfits.rpuLevel,
    lower8_eq_self hfits.normalizedIdc, lower8_eq_self hfits.extendedMappingLow,
    lower8_eq_self hfits.extendedMappingHigh]

@[simp] theorem usesNlq_coded (h : Header) : h.coded.usesNlq = h.usesNlq := rfl

/-! ### Reading back -/

variable {h : Header} {size : Nat} {w w' : Writer}

/-- A format without reserved bits fits in its eleven bits. -/
theorem Valid.lower_format (hvalid : h.Valid) : lower16 11 h.rpuFormat = h.rpuFormat := by
  have hle := UInt16.le_iff_toNat_le.1 hvalid.format_le
  have hmax : maxFormat.toNat = 2 ^ 11 - 1 := rfl
  exact lower16_eq_self (by omega)

theorem Valid.lower_coefficientType (hvalid : h.Valid) :
    lower8 2 h.coefficientType = h.coefficientType := by
  rcases hvalid.coefficient with ⟨htype, -⟩ | ⟨htype, -⟩ <;> rw [htype] <;> rfl

/-- The fields in front of the number of fraction bits are followed by that number only if the
coefficients are fixed-point numbers; it is read back in either case. -/
theorem conveys_fractionWidth (hvalid : h.Valid)
    (hput : (if h.coefficientType = fixedPoint then
      w.putUnsignedCode h.coefficientLog2Denominator.toNat else pure w) = .ok w') :
    Conveys size w w' (readFractionWidth h.coefficientType) h.coefficientLog2Denominator := by
  unfold readFractionWidth
  rcases hvalid.coefficient with ⟨htype, hwidth⟩ | ⟨htype, hwidth⟩
  · rw [if_pos htype] at hput ⊢
    have hread : Conveys size w' w'
        (if isFractionWidth h.coefficientLog2Denominator.toNat = true then
            (pure (UInt8.ofNat h.coefficientLog2Denominator.toNat) : BitParser UInt8)
          else throw (.malformed .coefficientDenominator)) h.coefficientLog2Denominator := by
      rw [if_pos hwidth, UInt8.ofNat_toNat]
      exact Conveys.pure _
    exact (conveys_unsignedCode (byte_le_maxCode _) hput).bind hread
  · have hne : h.coefficientType ≠ fixedPoint := by rw [htype]; decide
    rw [if_neg hne] at hput
    obtain rfl := Except.ok.inj hput
    rw [if_neg hne, if_pos htype, hwidth]
    exact Conveys.pure _

theorem extendedMapping_lt (h : Header) : h.extendedMapping < 256 := by
  unfold extendedMapping
  omega

theorem extendedMapping_mod (h : Header) :
    h.extendedMapping % 32 = h.extendedMappingLow.toNat % 2 ^ 5 := by
  unfold extendedMapping
  omega

theorem extendedMapping_div (h : Header) :
    h.extendedMapping / 32 = h.extendedMappingHigh.toNat % 2 ^ 3 := by
  unfold extendedMapping
  omega

/-- A bit depth is coded as its distance from eight, and put together again within a byte. -/
theorem add_depth_eq {depth : UInt8} (hdepth : isBitDepth depth = true) :
    Checked.add 8 (depth.toNat - 8) 8 = .ok depth.toNat := by
  rw [isBitDepth_iff] at hdepth
  have hsum : depth.toNat - 8 + 8 = depth.toNat := Nat.sub_add_cancel hdepth.1
  rw [Checked.add_of_lt (by omega), hsum]

/-- The codes of the depths are none that a reader refuses. -/
theorem Valid.depth_codes (hvalid : h.Valid) : h.baseLayerBitDepth.toNat - 8 ≤ maxCode ∧
    h.extendedMapping * 256 + (h.enhancementLayerBitDepth.toNat - 8) ≤ maxCode ∧
    h.outputBitDepth.toNat - 8 ≤ maxCode := by
  have hbase := isBitDepth_iff.1 hvalid.baseLayer
  have henhancement := isBitDepth_iff.1 hvalid.enhancementLayer
  have houtput := isBitDepth_iff.1 hvalid.output
  have hextended := extendedMapping_lt h
  unfold maxCode
  omega

/-- The code of the enhancement layer's depth is taken apart again. -/
theorem Valid.split_code (hvalid : h.Valid) :
    (h.extendedMapping * 256 + (h.enhancementLayerBitDepth.toNat - 8)) % 256 =
        h.enhancementLayerBitDepth.toNat - 8 ∧
      (h.extendedMapping * 256 + (h.enhancementLayerBitDepth.toNat - 8)) / 256 =
        h.extendedMapping := by
  have henhancement := isBitDepth_iff.1 hvalid.enhancementLayer
  omega

/-- A header that is written has had its parts written. -/
theorem ok_put (hput : h.put w = .ok w') : ∃ w₂ w₃ w₄ w₅ w₆ w₇,
    w.putFields h.leadingFields = .ok w₂ ∧
    (if h.coefficientType = fixedPoint then
      w₂.putUnsignedCode h.coefficientLog2Denominator.toNat else pure w₂) = .ok w₃ ∧
    w₃.putFields [⟨2, h.normalizedIdc.toNat⟩, ⟨1, h.baseLayerFullRange.toNat⟩] = .ok w₄ ∧
    w₄.putUnsignedCode (h.baseLayerBitDepth.toNat - 8) = .ok w₅ ∧
    w₅.putUnsignedCode (h.extendedMapping * 256 + (h.enhancementLayerBitDepth.toNat - 8)) =
      .ok w₆ ∧
    w₆.putUnsignedCode (h.outputBitDepth.toNat - 8) = .ok w₇ ∧
    w₇.putFields h.trailingFields = .ok w' := by
  obtain ⟨w₂, hleading, hput⟩ := Checked.ok_of_bind hput
  obtain ⟨w₃, hfraction, hput⟩ := Checked.ok_of_bindIf hput
  obtain ⟨w₄, hmiddle, hput⟩ := Checked.ok_of_bind hput
  obtain ⟨baseLayer, hbase, hput⟩ := Checked.ok_of_bind hput
  obtain ⟨w₅, hbaseLayer, hput⟩ := Checked.ok_of_bind hput
  obtain ⟨enhancementLayer, henhancement, hput⟩ := Checked.ok_of_bind hput
  obtain ⟨w₆, henhancementLayer, hput⟩ := Checked.ok_of_bind hput
  obtain ⟨output, houtput, hput⟩ := Checked.ok_of_bind hput
  obtain ⟨w₇, houtputDepth, htrailing⟩ := Checked.ok_of_bind hput
  obtain ⟨-, rfl⟩ := Checked.sub_eq_ok hbase
  obtain ⟨-, rfl⟩ := Checked.sub_eq_ok henhancement
  obtain ⟨-, rfl⟩ := Checked.sub_eq_ok houtput
  exact ⟨w₂, w₃, w₄, w₅, w₆, w₇, hleading, hfraction, hmiddle, hbaseLayer, henhancementLayer,
    houtputDepth, htrailing⟩

/-- **A valid header is read as it was coded**, behind the type of its RPU. -/
theorem conveys {strictness : Strictness} (hvalid : h.Valid) (hput : h.put w = .ok w') :
    ∃ w₁, w.put 6 h.rpuType.toNat = .ok w₁ ∧
      Conveys size w₁ w' (read h.rpuType strictness) h.coded := by
  obtain ⟨w₂, w₃, w₄, w₅, w₆, w₇, hleading, hfraction, hmiddle, hbaseLayer, henhancementLayer,
    houtputDepth, htrailing⟩ := ok_put hput
  obtain ⟨hbaseCode, henhancementCode, houtputCode⟩ := hvalid.depth_codes
  obtain ⟨hmod, hdiv⟩ := hvalid.split_code
  have hbase := isBitDepth_iff.1 hvalid.baseLayer
  have henhancement := isBitDepth_iff.1 hvalid.enhancementLayer
  have houtput := isBitDepth_iff.1 hvalid.output
  have hextended := h.extendedMapping_lt
  obtain ⟨w₁, htype, hleading⟩ := Checked.ok_of_bind hleading
  refine ⟨w₁, htype, ?_⟩
  unfold read
  refine Conveys.bindField hleading (fun _ => conveys_u16 (by decide)) fun _ hleading => ?_
  refine Conveys.bindField hleading (fun _ => conveys_u8 (by decide)) fun _ hleading => ?_
  refine Conveys.bindField hleading (fun _ => conveys_u8 (by decide)) fun _ hleading => ?_
  refine Conveys.bindField hleading (fun _ => conveys_flag (b := true)) fun _ hleading => ?_
  refine Conveys.guard (by decide) ?_
  refine Conveys.bindField hleading (fun _ => conveys_flag) fun _ hleading => ?_
  refine Conveys.bindField hleading (fun _ => conveys_u8 (by decide)) fun _ hleading => ?_
  obtain rfl := Except.ok.inj hleading
  rw [hvalid.lower_coefficientType, hvalid.lower_format]
  refine (conveys_fractionWidth hvalid hfraction).bind ?_
  refine Conveys.bindField hmiddle (fun _ => conveys_u8 (by decide)) fun _ hmiddle => ?_
  refine Conveys.bindField hmiddle (fun _ => conveys_flag) fun _ hmiddle => ?_
  obtain rfl := Except.ok.inj hmiddle
  refine Conveys.guard (by simp [hvalid.format_mask]) ?_
  refine (conveys_unsignedCode hbaseCode hbaseLayer).bind ?_
  refine (conveys_unsignedCode henhancementCode henhancementLayer).bind ?_
  refine (conveys_unsignedCode houtputCode houtputDepth).bind ?_
  refine Conveys.guard (by omega) ?_
  refine Conveys.bindField htrailing (fun _ => conveys_flag) fun _ htrailing => ?_
  refine Conveys.bindField htrailing (fun _ => conveys_bits32 (by decide)) fun _ htrailing => ?_
  refine Conveys.guard (by simp) ?_
  refine Conveys.bindField htrailing (fun _ => conveys_flag) fun _ htrailing => ?_
  refine Conveys.bindField htrailing (fun _ => conveys_flag) fun _ htrailing => ?_
  obtain rfl := Except.ok.inj htrailing
  rw [hmod, hdiv]
  refine (Conveys.ofExcept (add_depth_eq hvalid.baseLayer)).bind ?_
  refine (Conveys.ofExcept (add_depth_eq hvalid.enhancementLayer)).bind ?_
  refine (Conveys.ofExcept (add_depth_eq hvalid.output)).bind ?_
  refine (Conveys.pure _).congr ?_
  rw [UInt8.ofNat_toNat, UInt8.ofNat_toNat, UInt8.ofNat_toNat, extendedMapping_mod,
    extendedMapping_div]
  rfl

end DolbyVision.Header
