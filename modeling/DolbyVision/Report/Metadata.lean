/-
**The report on the metadata of a frame.**

Main definitions:

* `DolbyVision.Piece.text`, `DolbyVision.Nlq.text`, `DolbyVision.Block.text` — a part of the
  metadata on one line;
* `DolbyVision.Metadata.lines` — everything that is shown of the metadata of a frame.
-/

import DolbyVision.Metadata.Record
import DolbyVision.Note
import DolbyVision.Report.Text

set_option relaxedAutoImplicit false
set_option autoImplicit false

namespace DolbyVision

open Report

/-! ### Parts on one line -/

/-- A polynomial or a regression, with all coefficients that its kind can have. -/
def Piece.text : Piece → String
  | polynomial order coefficients =>
    record "Polynomial" [
      ("order", unsigned order.toNat),
      ("coef", list (coefficients.toList.map fun c => signed c.toInt))]
  | mmr order constant rows =>
    record "Mmr" [
      ("order", unsigned order.toNat),
      ("constant", signed constant.toInt),
      ("coef", list (rows.toList.map fun row => list (row.toList.map fun c => signed c.toInt)))]

/-- The name of a method of inverse quantization. -/
def NlqMethod.text : NlqMethod → String
  | linearDeadzone => "LinearDeadzone"

/-- The inverse quantization of a component. -/
def Nlq.text (n : Nlq) : String :=
  record "NlqParams" [
    ("nlq_offset", unsigned n.offset.toNat),
    ("vdr_in_max", unsigned n.inMax.toNat),
    ("linear_deadzone_slope", unsigned n.slope.toNat),
    ("linear_deadzone_threshold", unsigned n.threshold.toNat)]

/-- The primaries and the white point of a display. -/
def Chromaticities.text (c : Chromaticities) : String :=
  record "DisplayPrimaries" [
    ("red_x", signed c.redX.toInt),
    ("red_y", signed c.redY.toInt),
    ("green_x", signed c.greenX.toInt),
    ("green_y", signed c.greenY.toInt),
    ("blue_x", signed c.blueX.toInt),
    ("blue_y", signed c.blueY.toInt),
    ("white_x", signed c.whiteX.toInt),
    ("white_y", signed c.whiteY.toInt)]

/-- A list of bytes. -/
def bytesText (bytes : List UInt8) : String :=
  list (bytes.map fun b => unsigned b.toNat)

/-- The fields of a block, in the order in which they are shown. -/
def Block.shownFields : Block → List (String × String)
  | level1 b => [
      ("min_pq", unsigned b.minPq.toNat),
      ("max_pq", unsigned b.maxPq.toNat),
      ("avg_pq", unsigned b.avgPq.toNat)]
  | level2 b => [
      ("target_max_pq", unsigned b.targetMaxPq.toNat),
      ("trim_slope", unsigned b.trimSlope.toNat),
      ("trim_offset", unsigned b.trimOffset.toNat),
      ("trim_power", unsigned b.trimPower.toNat),
      ("trim_chroma_weight", unsigned b.trimChromaWeight.toNat),
      ("trim_saturation_gain", unsigned b.trimSaturationGain.toNat),
      ("ms_weight", signed b.msWeight.toInt)]
  | level3 b => [
      ("min_pq_offset", unsigned b.minPqOffset.toNat),
      ("max_pq_offset", unsigned b.maxPqOffset.toNat),
      ("avg_pq_offset", unsigned b.avgPqOffset.toNat)]
  | level4 b => [
      ("anchor_pq", unsigned b.anchorPq.toNat),
      ("anchor_power", unsigned b.anchorPower.toNat)]
  | level5 b => [
      ("left_offset", unsigned b.leftOffset.toNat),
      ("right_offset", unsigned b.rightOffset.toNat),
      ("top_offset", unsigned b.topOffset.toNat),
      ("bottom_offset", unsigned b.bottomOffset.toNat)]
  | level6 b => [
      ("max_luminance", unsigned b.maxLuminance.toNat),
      ("min_luminance", unsigned b.minLuminance.toNat),
      ("max_cll", unsigned b.maxCll.toNat),
      ("max_fall", unsigned b.maxFall.toNat)]
  | level8 b => [
      ("target_display_index", unsigned b.targetDisplayIndex.toNat),
      ("trim_slope", unsigned b.trimSlope.toNat),
      ("trim_offset", unsigned b.trimOffset.toNat),
      ("trim_power", unsigned b.trimPower.toNat),
      ("trim_chroma_weight", unsigned b.trimChromaWeight.toNat),
      ("trim_saturation_gain", unsigned b.trimSaturationGain.toNat),
      ("ms_weight", unsigned b.msWeight.toNat),
      ("target_mid_contrast", unsigned b.targetMidContrast.toNat),
      ("clip_trim", unsigned b.clipTrim.toNat),
      ("saturation_vector_field", bytesText b.saturationVectorField.toList),
      ("hue_vector_field", bytesText b.hueVectorField.toList)]
  | level9 b => [
      ("source_primary_index", unsigned b.sourcePrimaryIndex.toNat),
      ("source_display_primaries", b.sourceDisplayPrimaries.text)]
  | level10 b => [
      ("target_display_index", unsigned b.targetDisplayIndex.toNat),
      ("target_max_pq", unsigned b.targetMaxPq.toNat),
      ("target_min_pq", unsigned b.targetMinPq.toNat),
      ("target_primary_index", unsigned b.targetPrimaryIndex.toNat),
      ("target_display_primaries", b.targetDisplayPrimaries.text)]
  | level11 b => [
      ("content_type", unsigned b.contentType.toNat),
      ("whitepoint", unsigned b.whitepoint.toNat),
      ("reference_mode_flag", flag b.referenceMode),
      ("sharpness", unsigned b.sharpness.toNat),
      ("noise_reduction", unsigned b.noiseReduction.toNat),
      ("mpeg_noise_reduction", unsigned b.mpegNoiseReduction.toNat),
      ("frame_rate_conversion", unsigned b.frameRateConversion.toNat),
      ("brightness", unsigned b.brightness.toNat),
      ("color", unsigned b.color.toNat)]
  | level254 b => [
      ("dm_mode", unsigned b.dmMode.toNat),
      ("dm_version_index", unsigned b.dmVersionIndex.toNat)]
  | level255 b => [
      ("dm_run_mode", unsigned b.dmRunMode.toNat),
      ("dm_run_version", unsigned b.dmRunVersion.toNat),
      ("dm_debug", bytesText b.dmDebug.toList)]

/-- A block, by its level and its fields. -/
def Block.text (b : Block) : String :=
  let level := unsigned b.level.toNat
  case ("Level" ++ level) (record ("DmLevel" ++ level) b.shownFields)

/-! ### Sections -/

/-- What is shown of a header. -/
def Header.lines (h : Header) : List String := [
  "  Header:",
  entry "RPU Format" ("0x" ++ hexDigits 3 h.rpuFormat.toNat),
  entry "VDR RPU Profile" (unsigned h.rpuProfile.toNat),
  entry "VDR RPU Level" (unsigned h.rpuLevel.toNat),
  entry "Guessed Profile" (unsigned h.guessedProfile.toNat),
  entry "Coefficient Type" (unsigned h.coefficientType.toNat),
  entry "Coefficient Denom" ("2^" ++ unsigned h.coefficientLog2Denominator.toNat),
  entry "Bit Depths" ("BL " ++ unsigned h.baseLayerBitDepth.toNat ++
    ", EL " ++ unsigned h.enhancementLayerBitDepth.toNat ++
    ", VDR " ++ unsigned h.outputBitDepth.toNat),
  entry "BL Full Range" (flag h.baseLayerFullRange),
  entry "Residual Disabled" (flag h.disableResidual)]

/-- What is shown of the curve of a component. -/
def Curve.lines (component : Nat) (c : Curve) : List String :=
  entry ("Component " ++ unsigned component ++ " Pivots")
      (list (c.pivots.map fun p => unsigned p.toNat)) ::
    c.pieces.map fun p => "      " ++ p.text

/-- What is shown of inverse quantization, if there is any. -/
def Mapping.nlqLines (m : Mapping) : List String :=
  match m.nlqMethod with
  | none => []
  | some method =>
    entry "NLQ Method" method.text ::
    entry "NLQ Pivots" (list (m.nlqPivots.toList.map fun p => unsigned p.toNat)) ::
    m.nlq.toList.map fun n => "      " ++ n.text

/-- What is shown of a mapping. -/
def Mapping.lines (m : Mapping) : List String :=
  ["  Mapping:",
    entry "VDR RPU ID" (unsigned m.id.toNat),
    entry "Partitions" (unsigned m.partitionsX.toNat ++ "x" ++ unsigned m.partitionsY.toNat)] ++
  (m.curves.toList.zipIdx.flatMap fun c => c.1.lines c.2) ++
  m.nlqLines

/-- What is shown of a color description. -/
def SourceColor.lines (c : SourceColor) : List String := [
  "  Color:",
  entry "DM Metadata ID" (unsigned c.id.toNat),
  entry "Scene Refresh" (unsigned c.sceneRefresh.toNat),
  entry "Signal EOTF" (unsigned c.eotf.toNat),
  entry "Signal Bit Depth" (unsigned c.bitDepth.toNat),
  entry "Source Min PQ" (unsigned c.minPq.toNat),
  entry "Source Max PQ" (unsigned c.maxPq.toNat),
  entry "Source Diagonal" (unsigned c.diagonal.toNat)]

/-- What is shown of the extension blocks, if there are any. -/
def blockLines (blocks : List Block) : List String :=
  if blocks.isEmpty then []
  else
    "  Extension Blocks:" ::
    blocks.map fun b => "    L" ++ padded 3 (unsigned b.level.toNat) ++ " " ++ b.text

/-- What is shown of the metadata of a frame. -/
def Metadata.lines (m : Metadata) : List String :=
  m.header.lines ++ m.mapping.lines ++ m.color.lines ++ blockLines m.blocks

end DolbyVision
