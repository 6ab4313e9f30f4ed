/-
**What can be written.**

A valid header and a block can always be written.  A valid mapping can be written if its numbers
have codes: pivots that do not grow by more than a difference can say, coefficients whose integer
part has an Exp-Golomb code, and offsets that fit in their bits (`Mapping.IsCodable`).

Main definitions:

* `DolbyVision.Bits.Puts` — something that can be written wherever a writer stands;
* `DolbyVision.Coefficient.SignedCodable`, `DolbyVision.Coefficient.UnsignedCodable`,
  `DolbyVision.DeltasFit` — numbers that have codes;
* `DolbyVision.Mapping.IsCodable` — a mapping whose numbers have codes.

Main results:

* `DolbyVision.Header.puts` — **a valid header can be written**;
* `DolbyVision.Mapping.puts` — **a valid mapping can be written**, if its numbers have codes;
* `DolbyVision.Block.length_bounds`, `DolbyVision.Block.puts` — **the fields of a block fit in its
  length**, so every block can be written.
-/

import DolbyVision.Proofs.Rpu.BlockGroup
import DolbyVision.Proofs.Rpu.Mapping
import DolbyVision.Proofs.Rpu.SourceColor

set_option relaxedAutoImplicit false
set_option autoImplicit false

namespace DolbyVision

open Bits

/-! ### Writes that succeed -/

/-- Something that can be written wherever a writer stands. -/
def Bits.Puts {α : Type} (put : Writer → α → Except Fault Writer) (a : α) : Prop :=
  ∀ w, ∃ w', put w a = .ok w'

/-- A list can be written if each of its items can. -/
theorem Bits.Puts.list {α : Type} {put : Writer → α → Except Fault Writer} {items : List α}
    (hitems : ∀ a ∈ items, Puts put a) (w : Writer) : ∃ w', items.foldlM put w = .ok w' := by
  induction items generalizing w with
  | nil => exact ⟨w, rfl⟩
  | cons a items ih =>
    obtain ⟨hfirst, hrest⟩ := List.forall_mem_cons.1 hitems
    rw [List.foldlM_cons]
    exact Checked.exists_bind (hfirst w) (ih hrest)

/-- A byte has a code. -/
theorem Bits.byte_fits (n : UInt8) : n.toNat + 1 < 2 ^ 64 := by
  have hlt := n.toNat_lt
  omega

/-! ### Headers -/

namespace Header

variable {h : Header}

/-- Each depth and each number of a header has a code. -/
theorem codes_fit (h : Header) : h.coefficientLog2Denominator.toNat + 1 < 2 ^ 64 ∧
    h.baseLayerBitDepth.toNat - 8 + 1 < 2 ^ 64 ∧
    h.extendedMapping * 256 + (h.enhancementLayerBitDepth.toNat - 8) + 1 < 2 ^ 64 ∧
    h.outputBitDepth.toNat - 8 + 1 < 2 ^ 64 := by
  have hfraction := h.coefficientLog2Denominator.toNat_lt
  have hbase := h.baseLayerBitDepth.toNat_lt
  have hextended := h.extendedMapping_lt
  have henhancement := h.enhancementLayerBitDepth.toNat_lt
  have houtput := h.outputBitDepth.toNat_lt
  omega

/-- **A valid header can be written.** -/
theorem puts (hvalid : h.Valid) : Puts put h := by
  have hbase := (isBitDepth_iff.1 hvalid.baseLayer).1
  have henhancement := (isBitDepth_iff.1 hvalid.enhancementLayer).1
  have houtput := (isBitDepth_iff.1 hvalid.output).1
  obtain ⟨hfraction, hbaseCode, henhancementCode, houtputCode⟩ := h.codes_fit
  intro w
  unfold put
  refine Checked.exists_bind (Writer.exists_putFields (by simp [leadingFields]) w) fun w => ?_
  refine Checked.exists_bindIf (fun _ => Writer.exists_putUnsignedCode hfraction w)
    (fun _ => ⟨w, rfl⟩) fun w => ?_
  refine Checked.exists_bind (Writer.exists_putFields (by simp) w) fun w => ?_
  refine Checked.exists_bindOk (Checked.sub_of_le hbase) ?_
  refine Checked.exists_bind (Writer.exists_putUnsignedCode hbaseCode w) fun w => ?_
  refine Checked.exists_bindOk (Checked.sub_of_le henhancement) ?_
  refine Checked.exists_bind (Writer.exists_putUnsignedCode henhancementCode w) fun w => ?_
  refine Checked.exists_bindOk (Checked.sub_of_le houtput) ?_
  refine Checked.exists_bind (Writer.exists_putUnsignedCode houtputCode w) fun w => ?_
  exact Writer.exists_putFields (by simp [trailingFields]) w

/-- A valid header passes its checks. -/
theorem validate_of_valid (hvalid : h.Valid) : h.validate = .ok () := by
  have hformat : ¬ (h.rpuFormat &&& formatMask ≠ 0 ∨ maxFormat < h.rpuFormat) := by
    rw [not_or, not_not, UInt16.not_lt]
    exact ⟨hvalid.format_mask, hvalid.format_le⟩
  have hdepth : ¬ (!(isBitDepth h.baseLayerBitDepth && isBitDepth h.enhancementLayerBitDepth &&
      isBitDepth h.outputBitDepth)) = true := by
    rw [hvalid.baseLayer, hvalid.enhancementLayer, hvalid.output]
    decide
  unfold validate
  rw [if_neg hformat, if_neg hdepth]
  rcases hvalid.coefficient with ⟨htype, hwidth⟩ | ⟨htype, hwidth⟩
  · rw [if_pos htype, hwidth]
    rfl
  · rw [htype, hwidth]
    rfl

end Header

/-! ### Coefficients -/

namespace Coefficient

variable {h : Header}

/-- The integer part of a coefficient of a curve has a code.  Floating-point coefficients always
have one. -/
def SignedCodable (h : Header) (c : Int64) : Prop :=
  h.coefficientType = Header.fixedPoint → (c.toInt / (2 ^ fractionWidth h : Nat)).natAbs < 2 ^ 31

/-- The integer part of a coefficient of the inverse quantization has a code. -/
def UnsignedCodable (h : Header) (c : UInt64) : Prop :=
  h.coefficientType = Header.fixedPoint → c.toNat / 2 ^ fractionWidth h ≤ maxCode

theorem signedCodable_zero (h : Header) : SignedCodable h 0 := by
  intro _
  have hzero : (0 : Int64).toInt = 0 := rfl
  rw [hzero, Int.zero_ediv]
  decide

/-- The number of fraction bits is a shift amount. -/
theorem shiftAmount_eq (hvalid : h.Valid) :
    Checked.shiftAmount 64 (fractionWidth h) = .ok (fractionWidth h) := by
  have hle := hvalid.fraction_le
  exact Checked.shiftAmount_of_lt (by unfold fractionWidth; omega)

/-- One unit of the integer part is a bit of a word, which may have a sign. -/
theorem bit_eq (hvalid : h.Valid) {width : Nat} (hwidth : 63 ≤ width) :
    Checked.bit width (fractionWidth h) = .ok (2 ^ fractionWidth h) := by
  have hle := hvalid.fraction_le
  rw [Checked.bit_of_lt (by unfold fractionWidth; omega), Nat.one_shiftLeft]

/-- Floating-point coefficients can always be written. -/
theorem puts_scaled (hvalid : h.Valid) (units : Float) (w : Writer) :
    ∃ w', putScaled w h units = .ok w' := by
  have hwidth : fractionWidth h < 64 := by
    have hle := hvalid.fraction_le
    unfold fractionWidth
    omega
  exact Checked.exists_bindOk (scale_of_lt hwidth) (Writer.exists_put (by decide) _ w)

theorem puts_signed (hvalid : h.Valid) {c : Int64} (hc : SignedCodable h c) (w : Writer) :
    ∃ w', putSigned w h c = .ok w' := by
  have hwidth : fractionWidth h ≤ 64 := le_trans hvalid.fraction_le (by decide)
  unfold putSigned
  split
  · case isTrue htype =>
    have hwhole := hc htype
    refine Checked.exists_bindOk (bit_eq hvalid (by decide)) ?_
    dsimp only
    rw [Nat.one_shiftLeft, if_pos hwhole]
    exact Checked.exists_bind (Writer.exists_putSignedCode (by omega) w) fun w =>
      Writer.exists_put hwidth _ w
  · exact puts_scaled hvalid _ w

theorem puts_unsigned (hvalid : h.Valid) {c : UInt64} (hc : UnsignedCodable h c) (w : Writer) :
    ∃ w', putUnsigned w h c = .ok w' := by
  have hwidth : fractionWidth h ≤ 64 := le_trans hvalid.fraction_le (by decide)
  unfold putUnsigned
  split
  · case isTrue htype =>
    have hwhole : c.toNat / 2 ^ fractionWidth h < 2 ^ 32 - 1 := by
      have hle := hc htype
      unfold maxCode at hle
      omega
    refine Checked.exists_bindOk (bit_eq hvalid (by decide)) ?_
    dsimp only
    rw [Nat.one_shiftLeft, if_pos hwhole]
    exact Checked.exists_bind (Writer.exists_putUnsignedCode (by omega) w) fun w =>
      Writer.exists_put hwidth _ w
  · exact puts_scaled hvalid _ w

end Coefficient

/-! ### Mappings -/

/-- Pivots behind `previous` that do not decrease, and grow by less than `2 ^ width` each. -/
def DeltasFit (width : Nat) (previous : UInt16) (pivots : List UInt16) : Prop :=
  (previous :: pivots).IsChain fun a b => a ≤ b ∧ b.toNat - a.toNat < 2 ^ width

/-- A piece whose coefficients have codes. -/
def Piece.IsCodable (h : Header) : Piece → Prop
  | polynomial _ coefficients => ∀ c ∈ coefficients.toList, Coefficient.SignedCodable h c
  | mmr _ constant rows =>
    Coefficient.SignedCodable h constant ∧
      ∀ row ∈ rows.toList, ∀ c ∈ row.toList, Coefficient.SignedCodable h c

/-- An inverse quantization whose numbers have codes. -/
structure Nlq.IsCodable (h : Header) (n : Nlq) : Prop where
  offset : n.offset.toNat < 2 ^ h.enhancementLayerBitDepth.toNat
  inMax : Coefficient.UnsignedCodable h n.inMax
  slope : Coefficient.UnsignedCodable h n.slope
  threshold : Coefficient.UnsignedCodable h n.threshold

/-- A mapping whose numbers have codes. -/
structure Mapping.IsCodable (h : Header) (m : Mapping) : Prop where
  pivots : ∀ c ∈ m.curves.toList, DeltasFit h.baseLayerBitDepth.toNat 0 c.pivots
  pieces : ∀ c ∈ m.curves.toList, ∀ p ∈ c.pieces, p.IsCodable h
  nlqPivots : m.nlqMethod.isSome → DeltasFit h.baseLayerBitDepth.toNat 0 m.nlqPivots.toList
  nlq : m.nlqMethod.isSome → ∀ n ∈ m.nlq.toList, n.IsCodable h

namespace Mapping

variable {h : Header} {m : Mapping}

/-- The bit above a difference of at most 16 bits is one of a word. -/
theorem bit_eq {width : Nat} (hwidth : width ≤ 16) : Checked.bit 32 width = .ok (2 ^ width) := by
  rw [Checked.bit_of_lt (by omega), Nat.one_shiftLeft]

theorem puts_deltas {width : Nat} (hwidth : width ≤ 16) {previous : UInt16} {pivots : List UInt16}
    (hfit : DeltasFit width previous pivots) (w : Writer) :
    ∃ w', putDeltas w width previous pivots = .ok w' := by
  induction pivots generalizing w previous with
  | nil => exact ⟨w, rfl⟩
  | cons pivot pivots ih =>
    obtain ⟨⟨hle, hdelta⟩, hrest⟩ := List.isChain_cons_cons.1 hfit
    rw [putDeltas, if_neg (UInt16.not_lt.2 hle)]
    refine Checked.exists_bindOk (Checked.sub_of_le hle) ?_
    refine Checked.exists_bindOk (bit_eq hwidth) ?_
    rw [if_neg (not_le.2 hdelta)]
    exact Checked.exists_bind (Writer.exists_put (by omega) _ w) (ih hrest)

theorem puts_curvePivots (hvalid : h.Valid) {c : Curve} (hshape : c.hasValidShape = true)
    (hfit : DeltasFit h.baseLayerBitDepth.toNat 0 c.pivots) : Puts (putCurvePivots h) c := by
  have hdepth := (Header.isBitDepth_iff.1 hvalid.baseLayer).2
  simp only [Curve.hasValidShape, Bool.and_eq_true, decide_eq_true_eq] at hshape
  obtain ⟨⟨htwo, hmax⟩, -⟩ := hshape
  unfold maxPivots at hmax
  intro w
  refine Checked.exists_bindOk (Checked.sub_of_le htwo) ?_
  exact Checked.exists_bind (Writer.exists_putUnsignedCode (by omega) w) (puts_deltas hdepth hfit)

theorem puts_coefficients (hvalid : h.Valid) {coefficients : List Int64}
    (hc : ∀ c ∈ coefficients, Coefficient.SignedCodable h c) :
    Puts (putCoefficients h) coefficients :=
  Puts.list fun c hmem => Coefficient.puts_signed hvalid (hc c hmem)

theorem puts_piece (hvalid : h.Valid) {p : Piece} (horder : p.hasValidOrder = true)
    (hp : p.IsCodable h) : Puts (putPiece h) p := by
  have hbounds := order_bounds horder
  intro w
  cases p with
  | polynomial order coefficients =>
    obtain ⟨hpos, hle⟩ : 1 ≤ order.toNat ∧ order.toNat ≤ 3 := hbounds
    refine Checked.exists_bind (Writer.exists_putUnsignedCode (by decide) w) fun w => ?_
    refine Checked.exists_bindOk (Checked.sub_of_le hpos) ?_
    refine Checked.exists_bind (Writer.exists_putUnsignedCode (by omega) w) fun w => ?_
    refine Checked.exists_bindIf (fun _ => Writer.exists_putFlag false w) (fun _ => ⟨w, rfl⟩) ?_
    exact puts_coefficients hvalid fun c hc => hp c (List.mem_of_mem_take hc)
  | mmr order constant rows =>
    have hrow : ∀ row ∈ rows.toList.take order.toNat,
        Puts (fun w (row : Vector Int64 7) => putCoefficients h w row.toList) row :=
      fun row hrow => puts_coefficients hvalid (hp.2 row (List.mem_of_mem_take hrow))
    refine Checked.exists_bind (Writer.exists_putUnsignedCode (by decide) w) fun w => ?_
    refine Checked.exists_bindOk (Checked.sub_of_le hbounds.1) ?_
    refine Checked.exists_bind (Writer.exists_put (by decide) _ w) fun w => ?_
    exact Checked.exists_bind (Coefficient.puts_signed hvalid hp.1 w) (Puts.list hrow)

theorem puts_nlqMethod (hvalid : h.Valid) (hpivots : m.nlqMethod.isSome →
    DeltasFit h.baseLayerBitDepth.toNat 0 m.nlqPivots.toList) : Puts (putNlqMethod h) m := by
  have hdepth := (Header.isBitDepth_iff.1 hvalid.baseLayer).2
  intro w
  unfold putNlqMethod
  cases hmethod : m.nlqMethod with
  | none => exact ⟨w, rfl⟩
  | some method =>
    have hfit := hpivots (by rw [hmethod]; rfl)
    exact Checked.exists_bind (Writer.exists_put (by decide) _ w) (puts_deltas hdepth hfit)

theorem puts_nlq (hvalid : h.Valid) {n : Nlq} (hn : n.IsCodable h) : Puts (putNlq h) n := by
  have hdepth := (Header.isBitDepth_iff.1 hvalid.enhancementLayer).2
  intro w
  refine Checked.exists_bindOk (bit_eq hdepth) ?_
  rw [if_neg (not_le.2 hn.offset)]
  refine Checked.exists_bind (Writer.exists_put (by omega) _ w) fun w => ?_
  refine Checked.exists_bind (Coefficient.puts_unsigned hvalid hn.inMax w) fun w => ?_
  refine Checked.exists_bind (Coefficient.puts_unsigned hvalid hn.slope w) fun w => ?_
  exact Coefficient.puts_unsigned hvalid hn.threshold w

theorem pos_toNat {n : UInt32} (hn : n ≠ 0) : 1 ≤ n.toNat := by
  have hne : n.toNat ≠ 0 := fun hzero => hn (UInt32.toNat_inj.1 hzero)
  omega

/-- The predecessor of a word has a code. -/
theorem pred_fits (n : UInt32) : n.toNat - 1 + 1 < 2 ^ 64 := by
  have hlt := n.toNat_lt
  omega

/-- **A valid mapping can be written**, if its numbers have codes. -/
theorem puts {usesNlq : Bool} (hheader : h.Valid) (hvalid : m.Valid usesNlq)
    (hm : m.IsCodable h) : Puts (put h) m := by
  have hcurves : ∀ c ∈ m.curves.toList, Puts (putCurvePivots h) c := fun c hc =>
    puts_curvePivots hheader (hvalid.shape c hc) (hm.pivots c hc)
  have hpieces : ∀ c ∈ m.curves.toList, Puts (putPieces h) c := fun c hc =>
    Puts.list fun p hp => puts_piece hheader (hvalid.orders c hc p hp) (hm.pieces c hc p hp)
  intro w
  unfold put
  refine Checked.exists_bind (Writer.exists_putUnsignedCode (byte_fits _) w) fun w => ?_
  refine Checked.exists_bind (Writer.exists_putUnsignedCode (byte_fits _) w) fun w => ?_
  refine Checked.exists_bind (Puts.list hcurves w) fun w => ?_
  refine Checked.exists_bind (puts_nlqMethod hheader hm.nlqPivots w) fun w => ?_
  refine Checked.exists_bindOk (Checked.sub_of_le (pos_toNat hvalid.partitionsX)) ?_
  refine Checked.exists_bind (Writer.exists_putUnsignedCode (pred_fits _) w) fun w => ?_
  refine Checked.exists_bindOk (Checked.sub_of_le (pos_toNat hvalid.partitionsY)) ?_
  refine Checked.exists_bind (Writer.exists_putUnsignedCode (pred_fits _) w) fun w => ?_
  refine Checked.exists_bind (Puts.list hpieces w) fun w => ?_
  split
  · case isTrue hsome => exact Puts.list (fun n hn => puts_nlq hheader (hm.nlq hsome n hn)) w
  · exact ⟨w, rfl⟩

/-- A valid mapping passes its checks. -/
theorem validate_of_valid {usesNlq : Bool} (hvalid : m.Valid usesNlq) :
    m.validate usesNlq = .ok () := by
  have hcurve : ∀ c ∈ m.curves.toList, validateCurve c = .ok () := by
    intro c hc
    have horders : c.pieces.all Piece.hasValidOrder = true :=
      List.all_eq_true.2 (hvalid.orders c hc)
    exact validateCurve_of_shape (hvalid.shape c hc) horders
  have hcurves : m.curves.toList.forM validateCurve = .ok () := by
    generalize m.curves.toList = curves at hcurve
    induction curves with
    | nil => rfl
    | cons c curves ih =>
      obtain ⟨hfirst, hrest⟩ := List.forall_mem_cons.1 hcurve
      rw [List.forM_eq_forM, List.forM_cons, hfirst]
      exact ih hrest
  have hpartitions : ¬ (m.partitionsX = 0 ∨ m.partitionsY = 0) :=
    not_or.2 ⟨hvalid.partitionsX, hvalid.partitionsY⟩
  unfold validate
  rw [if_neg (Nat.not_lt.2 hvalid.id_le), hcurves]
  change (if m.partitionsX = 0 ∨ m.partitionsY = 0 then _ else _) = _
  rw [if_neg hpartitions, if_neg (not_not.2 hvalid.nlq)]
  rfl

end Mapping

/-! ### Blocks -/

theorem Bits.Field.totalWidth_append (a b : List Field) :
    Field.totalWidth (a ++ b) = Field.totalWidth a + Field.totalWidth b := by
  rw [← Field.length_bits, Field.bits_append, List.length_append, Field.length_bits,
    Field.length_bits]

theorem totalWidth_cons (f : Field) (fields : List Field) :
    Field.totalWidth (f :: fields) = f.width + Field.totalWidth fields := rfl

theorem totalWidth_byteFields (bytes : List UInt8) :
    Field.totalWidth (byteFields bytes) = 8 * bytes.length := by
  induction bytes with
  | nil => rfl
  | cons b bytes ih =>
    have hcons : Field.totalWidth (byteFields (b :: bytes)) =
        8 + Field.totalWidth (byteFields bytes) := rfl
    rw [hcons, ih, List.length_cons]
    omega

/-- Fields that are there on a condition have their width on that condition. -/
theorem totalWidth_ite (c : Prop) [Decidable c] (fields : List Field) :
    Field.totalWidth (if c then fields else []) = if c then Field.totalWidth fields else 0 := by
  split <;> rfl

theorem Chromaticities.totalWidth_fields (c : Chromaticities) :
    Field.totalWidth c.fields = 128 := by
  simp [fields, Field.totalWidth, Field.ofInt]

namespace Block

/-- **The length of a block is the shortest one in which its fields fit.** -/
theorem length_bounds (b : Block) :
    Field.totalWidth (b.bodyFields b.codedLength) ≤ 8 * b.codedLength ∧
      8 * b.codedLength < Field.totalWidth (b.bodyFields b.codedLength) + 8 := by
  have hnil : Field.totalWidth [] = 0 := rfl
  cases b with
  | level8 d =>
    simp only [bodyFields, Field.totalWidth_append, totalWidth_ite, totalWidth_cons, hnil,
      totalWidth_byteFields, Vector.length_toList]
    -- Each length is the sum of what is there, in whole bytes.
    simp only [codedLength]
    split_ifs <;> omega
  | level9 d =>
    simp only [bodyFields, totalWidth_cons, totalWidth_ite, Chromaticities.totalWidth_fields]
    simp only [codedLength]
    split_ifs <;> omega
  | level10 d =>
    simp only [bodyFields, Field.totalWidth_append, totalWidth_cons, hnil, totalWidth_ite,
      Chromaticities.totalWidth_fields]
    simp only [codedLength]
    split_ifs <;> omega
  | level255 d =>
    simp only [bodyFields, Field.totalWidth_append, totalWidth_cons, hnil, totalWidth_byteFields,
      Vector.length_toList]
    simp only [codedLength]
    omega
  | _ => exact ⟨Nat.le_of_ble_eq_true rfl, Nat.le_of_ble_eq_true rfl⟩

/-- No field of a block is wider than what is written at once. -/
theorem width_le (b : Block) (length : Nat) : ∀ f ∈ b.bodyFields length, f.width ≤ 64 := by
  cases b with
  | level8 d =>
    simp only [bodyFields, List.forall_mem_append]
    split_ifs <;> simp [byteFields]
  | level9 d =>
    simp only [bodyFields]
    split_ifs <;> simp [Chromaticities.fields, Field.ofInt]
  | level10 d =>
    simp only [bodyFields]
    split_ifs <;> simp [Chromaticities.fields, Field.ofInt]
  | level255 d =>
    simp only [bodyFields, List.forall_mem_append]
    simp [byteFields]
  | _ => simp [bodyFields, Field.ofInt]

/-- Less than a byte fills a body up. -/
theorem padding_le (b : Block) :
    8 * b.codedLength - Field.totalWidth (b.bodyFields b.codedLength) ≤ 64 := by
  have hlt := (length_bounds b).2
  omega

/-- Every block can be written. -/
theorem puts (b : Block) : Puts put b := by
  have hlength := BlockGroup.codedLength_le b
  intro w
  refine Checked.exists_bind (Writer.exists_putUnsignedCode (by omega) w) fun w => ?_
  refine Checked.exists_bind (Writer.exists_put (by decide) _ w) fun w => ?_
  obtain ⟨w', hbody⟩ := Writer.exists_putFields (width_le b b.codedLength) w
  have hgrows : w.bitsWritten ≤ w'.bitsWritten := by
    rw [← Writer.length_written, ← Writer.length_written, Writer.written_of_putFields hbody,
      List.length_append]
    exact Nat.le_add_right ..
  refine Checked.exists_bindOk hbody (Checked.exists_bindOk (Checked.sub_of_le hgrows) ?_)
  rw [Writer.bitsWritten_of_putFields hbody]
  refine Checked.exists_bindOk (Checked.mul_of_lt (by omega)) ?_
  refine Checked.exists_bindOk (Checked.sub_of_le (length_bounds b).1) ?_
  exact Writer.exists_put (padding_le b) 0 w'

end Block

/-- So can a group of blocks, if their number has a code. -/
theorem BlockGroup.puts {blocks : List Block} (hlength : blocks.length + 1 < 2 ^ 64) :
    Puts BlockGroup.put blocks := by
  intro w
  refine Checked.exists_bind (Writer.exists_putUnsignedCode hlength w) fun w => ?_
  obtain ⟨w', hrealign, -⟩ := w.exists_realign
  exact Checked.exists_bindOk hrealign (Puts.list (fun b _ => b.puts) w')

/-! ### Color descriptions -/

/-- No field of a color description is wider than what is written at once. -/
theorem SourceColor.width_le (c : SourceColor) : ∀ f ∈ c.fields, f.width ≤ 64 := by
  unfold fields
  simp only [List.forall_mem_append, List.forall_mem_map, Field.ofInt]
  refine ⟨⟨⟨fun _ _ => by decide, fun _ _ => by decide⟩, fun _ _ => by decide⟩, ?_⟩
  simp

end DolbyVision
