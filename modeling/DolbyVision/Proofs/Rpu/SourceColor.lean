/-
**A color description is read back.**

Main definitions:

* `DolbyVision.SourceColor.Fits` — the narrow fields of a description fit in their bits;
* `DolbyVision.SourceColor.coded` — what the bits of a description keep of it.

Main results:

* `DolbyVision.SourceColor.conveys` — **a description with a valid bit depth is read as it was
  coded**, behind its identifiers.
-/

import DolbyVision.Proofs.Bits.Conveys
import DolbyVision.Rpu.SourceColor

set_option relaxedAutoImplicit false
set_option autoImplicit false

namespace DolbyVision.SourceColor

open Bits

/-- The narrow fields of a description fit in their bits. -/
structure Fits (c : SourceColor) : Prop where
  bitDepth : c.bitDepth.toNat < 2 ^ 5
  colorSpace : c.colorSpace.toNat < 2 ^ 2
  chromaFormat : c.chromaFormat.toNat < 2 ^ 2
  fullRange : c.fullRange.toNat < 2 ^ 2
  minPq : c.minPq.toNat < 2 ^ 12
  maxPq : c.maxPq.toNat < 2 ^ 12
  diagonal : c.diagonal.toNat < 2 ^ 10

theorem fits_assumed : Fits .assumed :=
  ⟨by decide, by decide, by decide, by decide, by decide, by decide, by decide⟩

/-- A description with its narrow fields cut to their width. -/
def coded (c : SourceColor) : SourceColor :=
  { c with
    bitDepth := lower8 5 c.bitDepth
    colorSpace := lower8 2 c.colorSpace
    chromaFormat := lower8 2 c.chromaFormat
    fullRange := lower8 2 c.fullRange
    minPq := lower16 12 c.minPq
    maxPq := lower16 12 c.maxPq
    diagonal := lower16 10 c.diagonal }

/-- A description whose fields fit is coded as it is. -/
theorem coded_eq_self {c : SourceColor} (hfits : c.Fits) : c.coded = c := by
  rw [coded, lower8_eq_self hfits.bitDepth, lower8_eq_self hfits.colorSpace,
    lower8_eq_self hfits.chromaFormat, lower8_eq_self hfits.fullRange,
    lower16_eq_self hfits.minPq, lower16_eq_self hfits.maxPq, lower16_eq_self hfits.diagonal]

variable {size : Nat} {w w' : Writer} {c : SourceColor}

/-- A valid bit depth fits in its five bits. -/
theorem lower_bitDepth (hdepth : c.hasValidBitDepth = true) : lower8 5 c.bitDepth = c.bitDepth := by
  simp only [hasValidBitDepth, isBitDepth, Bool.and_eq_true, decide_eq_true_eq,
    UInt8.le_iff_toNat_le] at hdepth
  have hmax : (16 : UInt8).toNat = 16 := rfl
  exact lower8_eq_self (by omega)

/-- A matrix is read back. -/
theorem conveys_matrix {m : Vector Int16 9}
    (hput : w.putFields (m.toList.map fun v => Field.ofInt 16 v.toInt) = .ok w') :
    Conveys size w w' (Reader.times 9 (Reader.i16 16)) m := by
  refine (Conveys.timesFields (fun v w w' hput => ?_) hput).congr (Vector.map_id' m)
  exact (conveys_i16 (by decide : 0 < 16) (by decide) hput).congr (lowerSigned16_sixteen v)

/-- Offsets are read back. -/
theorem conveys_offsets {m : Vector UInt32 3}
    (hput : w.putFields (m.toList.map fun v => ⟨32, v.toNat⟩) = .ok w') :
    Conveys size w w' (Reader.times 3 (Reader.u32 32)) m := by
  refine (Conveys.timesFields (fun v w w' hput => ?_) hput).congr (Vector.map_id' m)
  exact (conveys_u32 (by decide : 32 ≤ 32) hput).congr (lower32_thirtyTwo v)

/-- **A description with a valid bit depth is read as it was coded**, behind its identifiers. -/
theorem conveys (hdepth : c.hasValidBitDepth = true) (hput : w.putFields c.fields = .ok w') :
    Conveys size w w' (read c.id c.sceneRefresh) c.coded := by
  have hcheck : ¬ (!isBitDepth (lower8 5 c.bitDepth)) = true := by
    rw [lower_bitDepth hdepth, Bool.not_eq_true', Bool.not_eq_false]
    exact hdepth
  rw [fields, List.append_assoc, List.append_assoc, Writer.putFields_append] at hput
  obtain ⟨w₁, hyccToRgb, hput⟩ := Checked.ok_of_bind hput
  rw [Writer.putFields_append] at hput
  obtain ⟨w₂, hyccOffset, hput⟩ := Checked.ok_of_bind hput
  rw [Writer.putFields_append] at hput
  obtain ⟨w₃, hrgbToLms, hput⟩ := Checked.ok_of_bind hput
  unfold read
  refine (conveys_matrix hyccToRgb).bind ?_
  refine (conveys_offsets hyccOffset).bind ?_
  refine (conveys_matrix hrgbToLms).bind ?_
  refine Conveys.bindField hput (fun _ => conveys_u16 (by decide)) fun _ hput => ?_
  refine Conveys.bindField hput (fun _ => conveys_u16 (by decide)) fun _ hput => ?_
  refine Conveys.bindField hput (fun _ => conveys_u16 (by decide)) fun _ hput => ?_
  refine Conveys.bindField hput (fun _ => conveys_u32 (by decide)) fun _ hput => ?_
  refine Conveys.bindField hput (fun _ => conveys_u8 (by decide)) fun _ hput => ?_
  refine Conveys.guard hcheck ?_
  refine Conveys.bindField hput (fun _ => conveys_u8 (by decide)) fun _ hput => ?_
  refine Conveys.bindField hput (fun _ => conveys_u8 (by decide)) fun _ hput => ?_
  refine Conveys.bindField hput (fun _ => conveys_u8 (by decide)) fun _ hput => ?_
  refine Conveys.bindField hput (fun _ => conveys_u16 (by decide)) fun _ hput => ?_
  refine Conveys.bindField hput (fun _ => conveys_u16 (by decide)) fun _ hput => ?_
  refine Conveys.bindField hput (fun _ => conveys_u16 (by decide)) fun _ hput => ?_
  obtain rfl := Except.ok.inj hput
  refine (Conveys.pure _).congr ?_
  rw [lower16_sixteen, lower16_sixteen, lower16_sixteen, lower32_thirtyTwo]
  rfl

end DolbyVision.SourceColor
