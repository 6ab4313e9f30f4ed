/-
**The body of an extension block is read back.**

For each level the fields that are written are the fields that are read, in the same order.  The
length of a block of level 8, 9 or 10 leaves out only fields that are zero, so nothing but the upper
bits of narrow fields is lost.

Main definitions:

* `DolbyVision.Block.Fits` — the fields of a block fit in their bits;
* `DolbyVision.Block.coded` — what the bits of a block keep of it;
* `DolbyVision.Block.CoveredBy` — what a length leaves out of a block is zero.

Main results:

* `DolbyVision.Block.covered_codedLength` — **the length of a block leaves out nothing** but zeros;
* `DolbyVision.Block.conveys_body` — **the body of a block is read as it was coded**;
* `DolbyVision.Block.coded_eq_self` — nothing is lost of a block whose fields fit.
-/

import DolbyVision.Proofs.Bits.Conveys
import DolbyVision.Rpu.Block

set_option relaxedAutoImplicit false
set_option autoImplicit false

namespace DolbyVision

open Bits

/-! ### What is coded -/

namespace Block

/-- The fields of a block fit in their bits. -/
def Fits : Block → Prop
  | level1 d => d.minPq.toNat < 2 ^ 12 ∧ d.maxPq.toNat < 2 ^ 12 ∧ d.avgPq.toNat < 2 ^ 12
  | level2 d =>
    d.targetMaxPq.toNat < 2 ^ 12 ∧ d.trimSlope.toNat < 2 ^ 12 ∧ d.trimOffset.toNat < 2 ^ 12 ∧
      d.trimPower.toNat < 2 ^ 12 ∧ d.trimChromaWeight.toNat < 2 ^ 12 ∧
      d.trimSaturationGain.toNat < 2 ^ 12 ∧
      -(2 ^ 12 : Nat) ≤ d.msWeight.toInt ∧ d.msWeight.toInt < (2 ^ 12 : Nat)
  | level3 d =>
    d.minPqOffset.toNat < 2 ^ 12 ∧ d.maxPqOffset.toNat < 2 ^ 12 ∧ d.avgPqOffset.toNat < 2 ^ 12
  | level4 d => d.anchorPq.toNat < 2 ^ 12 ∧ d.anchorPower.toNat < 2 ^ 12
  | level5 d =>
    d.leftOffset.toNat < 2 ^ 13 ∧ d.rightOffset.toNat < 2 ^ 13 ∧ d.topOffset.toNat < 2 ^ 13 ∧
      d.bottomOffset.toNat < 2 ^ 13
  | level6 _ => True
  | level8 d =>
    d.trimSlope.toNat < 2 ^ 12 ∧ d.trimOffset.toNat < 2 ^ 12 ∧ d.trimPower.toNat < 2 ^ 12 ∧
      d.trimChromaWeight.toNat < 2 ^ 12 ∧ d.trimSaturationGain.toNat < 2 ^ 12 ∧
      d.msWeight.toNat < 2 ^ 12 ∧ d.targetMidContrast.toNat < 2 ^ 12 ∧ d.clipTrim.toNat < 2 ^ 12
  | level9 _ => True
  | level10 d => d.targetMaxPq.toNat < 2 ^ 12 ∧ d.targetMinPq.toNat < 2 ^ 12
  | level11 d =>
    d.whitepoint.toNat < 2 ^ 4 ∧ d.sharpness.toNat < 2 ^ 2 ∧ d.noiseReduction.toNat < 2 ^ 2 ∧
      d.mpegNoiseReduction.toNat < 2 ^ 2 ∧ d.frameRateConversion.toNat < 2 ^ 2 ∧
      d.brightness.toNat < 2 ^ 2 ∧ d.color.toNat < 2 ^ 2
  | level254 _ => True
  | level255 _ => True

/-- A block with its narrow fields cut to their width. -/
def coded : Block → Block
  | level1 d =>
    level1 {
      minPq := lower16 12 d.minPq
      maxPq := lower16 12 d.maxPq
      avgPq := lower16 12 d.avgPq }
  | level2 d =>
    level2 {
      targetMaxPq := lower16 12 d.targetMaxPq
      trimSlope := lower16 12 d.trimSlope
      trimOffset := lower16 12 d.trimOffset
      trimPower := lower16 12 d.trimPower
      trimChromaWeight := lower16 12 d.trimChromaWeight
      trimSaturationGain := lower16 12 d.trimSaturationGain
      msWeight := lowerSigned16 13 d.msWeight }
  | level3 d =>
    level3 {
      minPqOffset := lower16 12 d.minPqOffset
      maxPqOffset := lower16 12 d.maxPqOffset
      avgPqOffset := lower16 12 d.avgPqOffset }
  | level4 d =>
    level4 { anchorPq := lower16 12 d.anchorPq, anchorPower := lower16 12 d.anchorPower }
  | level5 d =>
    level5 {
      leftOffset := lower16 13 d.leftOffset
      rightOffset := lower16 13 d.rightOffset
      topOffset := lower16 13 d.topOffset
      bottomOffset := lower16 13 d.bottomOffset }
  | level6 d => level6 d
  | level8 d =>
    level8 { d with
      trimSlope := lower16 12 d.trimSlope
      trimOffset := lower16 12 d.trimOffset
      trimPower := lower16 12 d.trimPower
      trimChromaWeight := lower16 12 d.trimChromaWeight
      trimSaturationGain := lower16 12 d.trimSaturationGain
      msWeight := lower16 12 d.msWeight
      targetMidContrast := lower16 12 d.targetMidContrast
      clipTrim := lower16 12 d.clipTrim }
  | level9 d => level9 d
  | level10 d =>
    level10 { d with
      targetMaxPq := lower16 12 d.targetMaxPq
      targetMinPq := lower16 12 d.targetMinPq }
  | level11 d =>
    level11 { d with
      whitepoint := lower8 4 d.whitepoint
      sharpness := lower8 2 d.sharpness
      noiseReduction := lower8 2 d.noiseReduction
      mpegNoiseReduction := lower8 2 d.mpegNoiseReduction
      frameRateConversion := lower8 2 d.frameRateConversion
      brightness := lower8 2 d.brightness
      color := lower8 2 d.color }
  | level254 d => level254 d
  | level255 d => level255 d

@[simp] theorem level_coded (b : Block) : b.coded.level = b.level := by
  cases b <;> rfl

@[simp] theorem isStatic_coded (b : Block) : b.coded.isStatic = b.isStatic := by
  rw [isStatic, level_coded, isStatic]

/-- A block whose fields fit is coded as it is. -/
theorem coded_eq_self {b : Block} (hfits : b.Fits) : b.coded = b := by
  cases b with
  | level1 d =>
    obtain ⟨h₁, h₂, h₃⟩ := hfits
    rw [coded, lower16_eq_self h₁, lower16_eq_self h₂, lower16_eq_self h₃]
  | level2 d =>
    obtain ⟨h₁, h₂, h₃, h₄, h₅, h₆, hlo, hhi⟩ := hfits
    rw [coded, lower16_eq_self h₁, lower16_eq_self h₂, lower16_eq_self h₃, lower16_eq_self h₄,
      lower16_eq_self h₅, lower16_eq_self h₆, lowerSigned16_eq_self hlo hhi]
  | level3 d =>
    obtain ⟨h₁, h₂, h₃⟩ := hfits
    rw [coded, lower16_eq_self h₁, lower16_eq_self h₂, lower16_eq_self h₃]
  | level4 d =>
    obtain ⟨h₁, h₂⟩ := hfits
    rw [coded, lower16_eq_self h₁, lower16_eq_self h₂]
  | level5 d =>
    obtain ⟨h₁, h₂, h₃, h₄⟩ := hfits
    rw [coded, lower16_eq_self h₁, lower16_eq_self h₂, lower16_eq_self h₃, lower16_eq_self h₄]
  | level6 d => rfl
  | level8 d =>
    obtain ⟨h₁, h₂, h₃, h₄, h₅, h₆, h₇, h₈⟩ := hfits
    rw [coded, lower16_eq_self h₁, lower16_eq_self h₂, lower16_eq_self h₃, lower16_eq_self h₄,
      lower16_eq_self h₅, lower16_eq_self h₆, lower16_eq_self h₇, lower16_eq_self h₈]
  | level9 d => rfl
  | level10 d =>
    obtain ⟨h₁, h₂⟩ := hfits
    rw [coded, lower16_eq_self h₁, lower16_eq_self h₂]
  | level11 d =>
    obtain ⟨h₁, h₂, h₃, h₄, h₅, h₆, h₇⟩ := hfits
    rw [coded, lower8_eq_self h₁, lower8_eq_self h₂, lower8_eq_self h₃, lower8_eq_self h₄,
      lower8_eq_self h₅, lower8_eq_self h₆, lower8_eq_self h₇]
  | level254 d => rfl
  | level255 d => rfl

/-! ### Fields that are left out -/

variable {size : Nat} {w w' : Writer}

/-- Bytes are read back. -/
theorem conveys_bytes {n : Nat} {bytes : Vector UInt8 n}
    (hput : w.putFields (byteFields bytes.toList) = .ok w') :
    Conveys size w w' (Reader.times n (Reader.u8 8)) bytes := by
  refine (Conveys.timesFields (fun v w w' hput => ?_) hput).congr (Vector.map_id' bytes)
  exact (conveys_u8 (by decide : 8 ≤ 32) hput).congr (lower8_eight v)

/-- Chromaticities are read back. -/
theorem conveys_chromaticities {c : Chromaticities} (hput : w.putFields c.fields = .ok w') :
    Conveys size w w' readChromaticities c := by
  have hpos : 0 < 16 := by decide
  have h32 : 16 ≤ 32 := by decide
  unfold readChromaticities
  refine Conveys.bindField hput (fun _ => conveys_i16 hpos h32) fun _ hput => ?_
  refine Conveys.bindField hput (fun _ => conveys_i16 hpos h32) fun _ hput => ?_
  refine Conveys.bindField hput (fun _ => conveys_i16 hpos h32) fun _ hput => ?_
  refine Conveys.bindField hput (fun _ => conveys_i16 hpos h32) fun _ hput => ?_
  refine Conveys.bindField hput (fun _ => conveys_i16 hpos h32) fun _ hput => ?_
  refine Conveys.bindField hput (fun _ => conveys_i16 hpos h32) fun _ hput => ?_
  refine Conveys.bindField hput (fun _ => conveys_i16 hpos h32) fun _ hput => ?_
  refine Conveys.bindField hput (fun _ => conveys_i16 hpos h32) fun _ hput => ?_
  obtain rfl := Except.ok.inj hput
  refine (Conveys.pure _).congr ?_
  simp only [lowerSigned16_sixteen]

/-- A field that is left out is read as what stands for its absence. -/
theorem conveys_readIf {α : Type} {c : Prop} [Decidable c] {fields : List Bits.Field}
    {item : BitParser α} {v absent : α}
    (hpresent : w.putFields fields = .ok w' → Conveys size w w' item v)
    (habsent : ¬ c → v = absent) (hput : w.putFields (if c then fields else []) = .ok w') :
    Conveys size w w' (readIf c item absent) v := by
  unfold readIf
  by_cases hc : c
  · rw [if_pos hc] at hput
    rw [if_pos (decide_eq_true hc)]
    exact hpresent hput
  · rw [if_neg hc] at hput
    obtain rfl := Except.ok.inj hput
    rw [if_neg (by rw [decide_eq_true_eq]; exact hc), habsent hc]
    exact Conveys.pure absent

theorem conveys_wordIf {c : Prop} [Decidable c] {v : UInt16} (habsent : ¬ c → v = 0)
    (hput : w.putFields (if c then [⟨12, v.toNat⟩] else []) = .ok w') :
    Conveys size w w' (readIf c (Reader.u16 12) 0) (lower16 12 v) := by
  refine conveys_readIf (fun hput => ?_) (fun hc => ?_) hput
  · obtain ⟨w₁, hword, hnone⟩ := Checked.ok_of_bind hput
    obtain rfl := Except.ok.inj hnone
    exact conveys_u16 (by decide : 12 ≤ 32) hword
  · rw [habsent hc]
    exact lower16_eq_self (by decide)

theorem eq_replicate_of_all_zero {n : Nat} {bytes : Vector UInt8 n}
    (hzero : bytes.toList.any (· != 0) = false) : bytes = Vector.replicate n 0 := by
  refine Vector.toList_inj.1 ?_
  rw [Vector.toList_replicate, List.eq_replicate_iff]
  refine ⟨Vector.length_toList, fun b hb => ?_⟩
  have hnonzero := List.any_eq_false.1 hzero b hb
  simpa using hnonzero

/-- Primaries that are not given, in one way or the other, are zero. -/
theorem eq_default_of_not_given {c : Chromaticities} {custom : Prop}
    (hnone : ¬ (custom ∨ (!c.isZero) = true)) : c = {} := by
  rw [not_or, Bool.not_eq_true', Bool.not_eq_false] at hnone
  exact beq_iff_eq.1 hnone.2

/-- What a length leaves out of a block is zero. -/
def CoveredBy (length : Nat) : Block → Prop
  | level8 d =>
    10 ≤ length ∧
      (¬ 12 ≤ length → d.targetMidContrast = 0) ∧
      (¬ 13 ≤ length → d.clipTrim = 0) ∧
      (¬ 19 ≤ length → d.saturationVectorField = Vector.replicate 6 0) ∧
      (¬ 25 ≤ length → d.hueVectorField = Vector.replicate 6 0)
  | level9 d => ¬ 1 < length → d.sourceDisplayPrimaries = {}
  | level10 d => ¬ 5 < length → d.targetDisplayPrimaries = {}
  | _ => True

/-- **What the length of a block leaves out is zero.** -/
theorem covered_codedLength (b : Block) : b.CoveredBy b.codedLength := by
  cases b with
  | level8 d =>
    have hzero {bytes : Vector UInt8 6} (hnone : ¬ bytes.toList.any (· != 0) = true) :
        bytes = Vector.replicate 6 0 := eq_replicate_of_all_zero (Bool.not_eq_true _ ▸ hnone)
    simp only [CoveredBy, codedLength]
    -- Each shorter length says of one more field that it is zero.
    split_ifs with hhue hsaturation hclip hcontrast
    · simp
    · simp [hzero hhue]
    · simp [hzero hhue, hzero hsaturation]
    · simp [hzero hhue, hzero hsaturation, not_not.1 hclip]
    · simp [hzero hhue, hzero hsaturation, not_not.1 hclip, not_not.1 hcontrast]
  | level9 d =>
    intro hshort
    simp only [codedLength] at hshort
    split at hshort
    · exact absurd (by decide) hshort
    · case isFalse hnone => exact eq_default_of_not_given hnone
  | level10 d =>
    intro hshort
    simp only [codedLength] at hshort
    split at hshort
    · exact absurd (by decide) hshort
    · case isFalse hnone => exact eq_default_of_not_given hnone
  | _ => trivial

/-! ### Bodies -/

theorem conveys_level1 {d : Level1}
    (hput : w.putFields ((level1 d).bodyFields (level1 d).codedLength) = .ok w') :
    Conveys size w w' (level1 <$> readLevel1) (level1 d).coded := by
  refine Conveys.map ?_ level1
  refine Conveys.bindField hput (fun _ => conveys_u16 (by decide)) fun _ hput => ?_
  refine Conveys.bindField hput (fun _ => conveys_u16 (by decide)) fun _ hput => ?_
  refine Conveys.bindField hput (fun _ => conveys_u16 (by decide)) fun _ hput => ?_
  obtain rfl := Except.ok.inj hput
  exact Conveys.pure _

theorem conveys_level2 {d : Level2}
    (hput : w.putFields ((level2 d).bodyFields (level2 d).codedLength) = .ok w') :
    Conveys size w w' (level2 <$> readLevel2) (level2 d).coded := by
  refine Conveys.map ?_ level2
  refine Conveys.bindField hput (fun _ => conveys_u16 (by decide)) fun _ hput => ?_
  refine Conveys.bindField hput (fun _ => conveys_u16 (by decide)) fun _ hput => ?_
  refine Conveys.bindField hput (fun _ => conveys_u16 (by decide)) fun _ hput => ?_
  refine Conveys.bindField hput (fun _ => conveys_u16 (by decide)) fun _ hput => ?_
  refine Conveys.bindField hput (fun _ => conveys_u16 (by decide)) fun _ hput => ?_
  refine Conveys.bindField hput (fun _ => conveys_u16 (by decide)) fun _ hput => ?_
  refine Conveys.bindField hput (fun _ => conveys_i16 (by decide) (by decide)) fun _ hput => ?_
  obtain rfl := Except.ok.inj hput
  exact Conveys.pure _

theorem conveys_level3 {d : Level3}
    (hput : w.putFields ((level3 d).bodyFields (level3 d).codedLength) = .ok w') :
    Conveys size w w' (level3 <$> readLevel3) (level3 d).coded := by
  refine Conveys.map ?_ level3
  refine Conveys.bindField hput (fun _ => conveys_u16 (by decide)) fun _ hput => ?_
  refine Conveys.bindField hput (fun _ => conveys_u16 (by decide)) fun _ hput => ?_
  refine Conveys.bindField hput (fun _ => conveys_u16 (by decide)) fun _ hput => ?_
  obtain rfl := Except.ok.inj hput
  exact Conveys.pure _

theorem conveys_level4 {d : Level4}
    (hput : w.putFields ((level4 d).bodyFields (level4 d).codedLength) = .ok w') :
    Conveys size w w' (level4 <$> readLevel4) (level4 d).coded := by
  refine Conveys.map ?_ level4
  refine Conveys.bindField hput (fun _ => conveys_u16 (by decide)) fun _ hput => ?_
  refine Conveys.bindField hput (fun _ => conveys_u16 (by decide)) fun _ hput => ?_
  obtain rfl := Except.ok.inj hput
  exact Conveys.pure _

theorem conveys_level5 {d : Level5}
    (hput : w.putFields ((level5 d).bodyFields (level5 d).codedLength) = .ok w') :
    Conveys size w w' (level5 <$> readLevel5) (level5 d).coded := by
  refine Conveys.map ?_ level5
  refine Conveys.bindField hput (fun _ => conveys_u16 (by decide)) fun _ hput => ?_
  refine Conveys.bindField hput (fun _ => conveys_u16 (by decide)) fun _ hput => ?_
  refine Conveys.bindField hput (fun _ => conveys_u16 (by decide)) fun _ hput => ?_
  refine Conveys.bindField hput (fun _ => conveys_u16 (by decide)) fun _ hput => ?_
  obtain rfl := Except.ok.inj hput
  exact Conveys.pure _

theorem conveys_level6 {d : Level6}
    (hput : w.putFields ((level6 d).bodyFields (level6 d).codedLength) = .ok w') :
    Conveys size w w' (level6 <$> readLevel6) (level6 d).coded := by
  refine Conveys.map ?_ level6
  refine Conveys.bindField hput (fun _ => conveys_u16 (by decide)) fun _ hput => ?_
  refine Conveys.bindField hput (fun _ => conveys_u16 (by decide)) fun _ hput => ?_
  refine Conveys.bindField hput (fun _ => conveys_u16 (by decide)) fun _ hput => ?_
  refine Conveys.bindField hput (fun _ => conveys_u16 (by decide)) fun _ hput => ?_
  obtain rfl := Except.ok.inj hput
  refine (Conveys.pure _).congr ?_
  simp only [lower16_sixteen]

/-- The optional fields of a block of level 8 are read if its length says that they are there. -/
theorem conveys_level8 {d : Level8}
    (hput : w.putFields ((level8 d).bodyFields (level8 d).codedLength) = .ok w') :
    Conveys size w w' (level8 <$> readLevel8 (level8 d).codedLength) (level8 d).coded := by
  obtain ⟨hlength, hcontrast, hclip, hsaturation, hhue⟩ := covered_codedLength (level8 d)
  generalize (level8 d).codedLength = length at *
  -- The optional fields stand one after the other behind the fixed ones.
  rw [bodyFields, Writer.putFields_append] at hput
  obtain ⟨_, hput, hhueField⟩ := Checked.ok_of_bind hput
  rw [Writer.putFields_append] at hput
  obtain ⟨_, hput, hsaturationField⟩ := Checked.ok_of_bind hput
  rw [Writer.putFields_append] at hput
  obtain ⟨_, hput, hclipField⟩ := Checked.ok_of_bind hput
  rw [Writer.putFields_append] at hput
  obtain ⟨_, hput, hcontrastField⟩ := Checked.ok_of_bind hput
  refine Conveys.map ?_ level8
  unfold readLevel8
  refine Conveys.guard (Nat.not_lt.2 hlength) ?_
  refine Conveys.bindField hput (fun _ => conveys_u8 (by decide)) fun _ hput => ?_
  refine Conveys.bindField hput (fun _ => conveys_u16 (by decide)) fun _ hput => ?_
  refine Conveys.bindField hput (fun _ => conveys_u16 (by decide)) fun _ hput => ?_
  refine Conveys.bindField hput (fun _ => conveys_u16 (by decide)) fun _ hput => ?_
  refine Conveys.bindField hput (fun _ => conveys_u16 (by decide)) fun _ hput => ?_
  refine Conveys.bindField hput (fun _ => conveys_u16 (by decide)) fun _ hput => ?_
  refine Conveys.bindField hput (fun _ => conveys_u16 (by decide)) fun _ hput => ?_
  obtain rfl := Except.ok.inj hput
  refine (conveys_wordIf hcontrast hcontrastField).bind ?_
  refine (conveys_wordIf hclip hclipField).bind ?_
  refine (conveys_readIf conveys_bytes hsaturation hsaturationField).bind ?_
  refine (conveys_readIf conveys_bytes hhue hhueField).bind ?_
  refine (Conveys.pure _).congr ?_
  rw [lower8_eight]

theorem conveys_level9 {d : Level9}
    (hput : w.putFields ((level9 d).bodyFields (level9 d).codedLength) = .ok w') :
    Conveys size w w' (level9 <$> readLevel9 (level9 d).codedLength) (level9 d).coded := by
  have habsent : (level9 d).CoveredBy (level9 d).codedLength := covered_codedLength (level9 d)
  generalize (level9 d).codedLength = length at *
  refine Conveys.map ?_ level9
  refine Conveys.bindField hput (fun _ => conveys_u8 (by decide)) fun _ hput => ?_
  refine (conveys_readIf conveys_chromaticities habsent hput).bind ?_
  refine (Conveys.pure _).congr ?_
  rw [lower8_eight]

theorem conveys_level10 {d : Level10}
    (hput : w.putFields ((level10 d).bodyFields (level10 d).codedLength) = .ok w') :
    Conveys size w w' (level10 <$> readLevel10 (level10 d).codedLength) (level10 d).coded := by
  have habsent : (level10 d).CoveredBy (level10 d).codedLength := covered_codedLength (level10 d)
  generalize (level10 d).codedLength = length at *
  refine Conveys.map ?_ level10
  refine Conveys.bindField hput (fun _ => conveys_u8 (by decide)) fun _ hput => ?_
  refine Conveys.bindField hput (fun _ => conveys_u16 (by decide)) fun _ hput => ?_
  refine Conveys.bindField hput (fun _ => conveys_u16 (by decide)) fun _ hput => ?_
  refine Conveys.bindField hput (fun _ => conveys_u8 (by decide)) fun _ hput => ?_
  refine (conveys_readIf conveys_chromaticities habsent hput).bind ?_
  refine (Conveys.pure _).congr ?_
  rw [lower8_eight, lower8_eight]

theorem conveys_level11 {d : Level11}
    (hput : w.putFields ((level11 d).bodyFields (level11 d).codedLength) = .ok w') :
    Conveys size w w' (level11 <$> readLevel11) (level11 d).coded := by
  refine Conveys.map ?_ level11
  refine Conveys.bindField hput (fun _ => conveys_u8 (by decide)) fun _ hput => ?_
  refine Conveys.bindField hput (fun _ => conveys_u8 (by decide)) fun _ hput => ?_
  refine Conveys.bindField hput (fun _ => conveys_flag) fun _ hput => ?_
  refine Conveys.bindField hput (fun _ => conveys_skip) fun _ hput => ?_
  refine Conveys.bindField hput (fun _ => conveys_u8 (by decide)) fun _ hput => ?_
  refine Conveys.bindField hput (fun _ => conveys_u8 (by decide)) fun _ hput => ?_
  refine Conveys.bindField hput (fun _ => conveys_u8 (by decide)) fun _ hput => ?_
  refine Conveys.bindField hput (fun _ => conveys_u8 (by decide)) fun _ hput => ?_
  refine Conveys.bindField hput (fun _ => conveys_u8 (by decide)) fun _ hput => ?_
  refine Conveys.bindField hput (fun _ => conveys_u8 (by decide)) fun _ hput => ?_
  obtain rfl := Except.ok.inj hput
  refine (Conveys.pure _).congr ?_
  rw [lower8_eight]

theorem conveys_level254 {d : Level254}
    (hput : w.putFields ((level254 d).bodyFields (level254 d).codedLength) = .ok w') :
    Conveys size w w' (level254 <$> readLevel254) (level254 d).coded := by
  refine Conveys.map ?_ level254
  refine Conveys.bindField hput (fun _ => conveys_u8 (by decide)) fun _ hput => ?_
  refine Conveys.bindField hput (fun _ => conveys_u8 (by decide)) fun _ hput => ?_
  obtain rfl := Except.ok.inj hput
  refine (Conveys.pure _).congr ?_
  rw [lower8_eight, lower8_eight]

theorem conveys_level255 {d : Level255}
    (hput : w.putFields ((level255 d).bodyFields (level255 d).codedLength) = .ok w') :
    Conveys size w w' (level255 <$> readLevel255) (level255 d).coded := by
  refine Conveys.map ?_ level255
  refine Conveys.bindField hput (fun _ => conveys_u8 (by decide)) fun _ hput => ?_
  refine Conveys.bindField hput (fun _ => conveys_u8 (by decide)) fun _ hput => ?_
  refine (conveys_bytes hput).bind ?_
  refine (Conveys.pure _).congr ?_
  rw [lower8_eight, lower8_eight]

/-- **The body of a block is read as it was coded** in the group to which the block belongs. -/
theorem conveys_body {b : Block} (hput : w.putFields (b.bodyFields b.codedLength) = .ok w') :
    Conveys size w w' (readBody b.group b.level b.codedLength) (some b.coded) := by
  cases b with
  | level1 d => exact (conveys_level1 hput).map some
  | level2 d => exact (conveys_level2 hput).map some
  | level3 d => exact (conveys_level3 hput).map some
  | level4 d => exact (conveys_level4 hput).map some
  | level5 d => exact (conveys_level5 hput).map some
  | level6 d => exact (conveys_level6 hput).map some
  | level8 d => exact (conveys_level8 hput).map some
  | level9 d => exact (conveys_level9 hput).map some
  | level10 d => exact (conveys_level10 hput).map some
  | level11 d => exact (conveys_level11 hput).map some
  | level254 d => exact (conveys_level254 hput).map some
  | level255 d => exact (conveys_level255 hput).map some

end Block

end DolbyVision
