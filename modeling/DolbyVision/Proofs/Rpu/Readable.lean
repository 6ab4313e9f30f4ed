/-
**What was read can be written.**

Whatever bits a header, a mapping, a color description or a block was read from, its fields fit in
their bits, nothing that is not coded is there, and its numbers have codes.  So it passes the checks
of an encoder, can be written, and is read again as it is.

This holds also where a reader departs from what it has read: a pivot that was cut off at the
largest word is not further from the one before it, a block with more bytes than its fields need has
the fields of a shorter one, and a block that is passed over leaves the others in their order.

Main definitions:

* `DolbyVision.BlockSet.ReceivedUpTo` — the blocks of a set come from the groups up to a given one,
  in their order.

Main results:

* `DolbyVision.Header.gives_valid` — **a header that was read is valid**, and its fields fit;
* `DolbyVision.Mapping.gives_canonical` — **a mapping that was read is canonical**, and its numbers
  have codes;
* `DolbyVision.SourceColor.gives_fits`, `DolbyVision.Block.gives_body` — the fields of a color
  description and of a block fit;
* `DolbyVision.BlockGroup.gives_received` — **blocks are kept in the order in which they are sent**.
-/

import DolbyVision.Proofs.Rpu.SourceColor
import DolbyVision.Proofs.Rpu.WellFormed
import DolbyVision.Proofs.Rpu.Writable

set_option relaxedAutoImplicit false
set_option autoImplicit false

namespace DolbyVision

open Bits

/-! ### Headers -/

namespace Header

/-- The number of fraction bits suits the type of the coefficients. -/
theorem gives_fractionWidth (type : UInt8) :
    Run.Gives (readFractionWidth type) fun width =>
      (type = fixedPoint ∧ isFractionWidth width.toNat = true) ∨
        (type = floatingPoint ∧ width = floatingPointFraction) := by
  refine .ite (fun hfixed => ?_) fun _ => .ite (fun hfloating => ?_) fun _ => .throw
  · refine .after fun width => .ite (fun hwidth => .pure ?_) fun _ => .throw
    have hle : width ≤ 32 := by
      simp only [isFractionWidth, Bool.and_eq_true, decide_eq_true_eq] at hwidth
      exact hwidth.2
    have hword : (UInt8.ofNat width).toNat = width := by
      rw [UInt8.toNat_ofNat']
      omega
    exact Or.inl ⟨hfixed, by rwa [hword]⟩
  · exact .pure (Or.inr ⟨hfloating, rfl⟩)

/-- A bit depth that was read as its distance from eight is one that there is. -/
theorem isBitDepth_ofNat {distance : Nat} (h : distance ≤ 8) :
    isBitDepth (UInt8.ofNat (distance + 8)) = true := by
  rw [isBitDepth_iff, UInt8.toNat_ofNat']
  omega

/-- **A header that was read is valid**, and its fields fit. -/
theorem gives_valid (rpuType : UInt8) (strictness : Strictness) :
    Run.Gives (read rpuType strictness) fun h => h.Valid ∧ h.Fits := by
  unfold read
  refine .bind (gives_u16 11) fun format hformat => .bind (gives_u8 4) fun profile hprofile => ?_
  refine .bind (gives_u8 4) fun level hlevel => ?_
  refine .after fun info => .check fun _ => ?_
  refine .after fun filter => .after fun type => ?_
  refine .bind (gives_fractionWidth type) fun _ hwidth => ?_
  refine .bind (gives_u8 2) fun idc hidc => ?_
  refine .after fun fullRange => .check fun hmask => ?_
  refine .after fun base => .after fun enhancement => .after fun output => ?_
  refine .check fun hdepths => ?_
  refine .after fun resampling => .after fun reserved => .check fun _ => ?_
  refine .after fun filter' => .after fun disable => ?_
  refine .bind (.ofExcept fun _ hadd => Checked.within_eq_ok hadd) fun _ hbase => ?_
  refine .bind (.ofExcept fun _ hadd => Checked.within_eq_ok hadd) fun _ henhancement => ?_
  refine .bind (.ofExcept fun _ hadd => Checked.within_eq_ok hadd) fun _ houtput => ?_
  obtain ⟨-, rfl⟩ := hbase
  obtain ⟨-, rfl⟩ := henhancement
  obtain ⟨-, rfl⟩ := houtput
  refine .pure ⟨?_, ?_⟩
  · refine ⟨not_not.1 hmask, ?_, isBitDepth_ofNat ?_, isBitDepth_ofNat ?_, isBitDepth_ofNat ?_,
      hwidth⟩
    · have hmax : maxFormat.toNat = 2 ^ 11 - 1 := rfl
      exact UInt16.le_iff_toNat_le.2 (hmax ▸ Nat.le_pred_of_lt hformat)
    all_goals omega
  · refine ⟨hprofile, hlevel, hidc, ?_, ?_⟩
    · rw [UInt8.toNat_ofNat']
      omega
    · rw [UInt8.toNat_ofNat']
      omega

end Header

/-! ### Coefficients -/

namespace Coefficient

variable {h : Header}

/-- A coefficient of a curve that was read has a code: its integer part was read from one. -/
theorem gives_signed (hvalid : h.Valid) : Run.Gives (readSigned h) (SignedCodable h) := by
  have hfraction : fractionWidth h ≤ 32 := hvalid.fraction_le
  refine .ite (fun htype => ?_) fun htype => .after fun _ => .pure fun h' => absurd h' htype
  refine .bind gives_signedCode fun whole hwhole => ?_
  refine .bind (gives_bits _) fun fraction hlt => ?_
  refine .bind (.ofExcept fun _ h => Checked.shiftAmount_eq_ok h) fun amount hamount => ?_
  refine .pure fun _ => ?_
  obtain ⟨h64, rfl⟩ := hamount
  rwa [(signedParts_of_sum (toInt_join hfraction hwhole hlt) hlt).1]

/-- The same of a coefficient of the inverse quantization. -/
theorem gives_unsigned (hvalid : h.Valid) : Run.Gives (readUnsigned h) (UnsignedCodable h) := by
  have hfraction : fractionWidth h ≤ 32 := hvalid.fraction_le
  refine .ite (fun htype => ?_) fun htype => .after fun _ => .pure fun h' => absurd h' htype
  refine .bind gives_unsignedCode fun whole hwhole => ?_
  refine .bind (gives_bits _) fun fraction hlt => ?_
  refine .bind (.ofExcept fun _ h => Checked.shiftAmount_eq_ok h) fun amount hamount => ?_
  refine .pure fun _ => ?_
  obtain ⟨h64, rfl⟩ := hamount
  rwa [(unsignedParts_of_sum (toNat_join hfraction hwhole hlt) hlt).1]

end Coefficient

/-! ### Mappings -/

namespace Mapping

variable {h : Header}

/-- A pivot and the one before it keep their distance when they are cut off, or come closer. -/
theorem delta_fits (previous : Nat) {depth delta : Nat} (hdelta : delta < 2 ^ depth) :
    UInt16.ofNat (min previous 0xffff) ≤ UInt16.ofNat (min (previous + delta) 0xffff) ∧
      (UInt16.ofNat (min (previous + delta) 0xffff)).toNat -
        (UInt16.ofNat (min previous 0xffff)).toNat < 2 ^ depth := by
  have hword (n : Nat) : (UInt16.ofNat (min n 0xffff)).toNat = min n 0xffff := by
    rw [UInt16.toNat_ofNat']
    omega
  rw [UInt16.le_iff_toNat_le, hword, hword]
  omega

theorem gives_deltas (depth n previous : Nat) :
    Run.Gives (readPivots depth n previous)
      (DeltasFit depth (UInt16.ofNat (min previous 0xffff))) := by
  induction n generalizing previous with
  | zero => exact .pure (List.IsChain.singleton _)
  | succ n ih =>
    refine .bind (gives_bits32 depth) fun delta hdelta => ?_
    refine .bind (.ofExcept fun _ hadd => (within_eq_ok hadd).2) fun pivot hpivot => ?_
    subst hpivot
    refine .bind (ih _) fun pivots hpivots => .pure ?_
    exact List.isChain_cons_cons.2 ⟨delta_fits _ hdelta, hpivots⟩

theorem gives_curveDeltas (h : Header) :
    Run.Gives (readCurvePivots h) (DeltasFit h.baseLayerBitDepth.toNat 0) :=
  .after fun _ => .check fun _ => gives_deltas _ _ 0

theorem gives_polynomialCodable (hvalid : h.Valid) :
    Run.Gives (readPolynomial h) fun p => p.IsCanonical ∧ p.IsCodable h := by
  have hsigned := Coefficient.gives_signed hvalid
  refine .after fun order => .check fun _ => ?_
  refine .ite (fun _ => .after fun linear => .check fun _ => ?_) fun _ => ?_
  all_goals
    refine .bind hsigned fun c₀ h₀ => .bind hsigned fun c₁ h₁ => ?_
    refine .bindIf (Q := fun c₂ => (order = 1 ∨ c₂ = 0) ∧ Coefficient.SignedCodable h c₂)
      (fun hone => hsigned.mono fun _ hc => ⟨Or.inl hone, hc⟩)
      (fun _ => .pure ⟨Or.inr rfl, Coefficient.signedCodable_zero h⟩) fun c₂ h₂ => ?_
    refine .bind (.ofExcept fun _ hadd => Checked.within_eq_ok hadd) fun _ hadd => ?_
    obtain ⟨-, rfl⟩ := hadd
    refine .pure ⟨?_, ?_⟩
    · exact h₂.1.imp_left fun hone => by rw [hone]; rfl
    · intro c hc
      have hmem : c ∈ [c₀, c₁, c₂] := hc
      simp only [List.mem_cons, List.not_mem_nil, or_false] at hmem
      rcases hmem with rfl | rfl | rfl
      · exact h₀
      · exact h₁
      · exact h₂.2

/-- A row that is not there is read as zeros. -/
theorem gives_row (hvalid : h.Valid) (present : Bool) :
    Run.Gives (readRow h present) fun row =>
      (present = true ∨ row = Vector.replicate 7 0) ∧
        ∀ c ∈ row.toList, Coefficient.SignedCodable h c := by
  refine .ite (fun hpresent => ?_) fun _ => .pure ⟨Or.inr rfl, fun c hc => ?_⟩
  · exact (gives_times (Coefficient.gives_signed hvalid) 7).mono fun _ hrow =>
      ⟨Or.inl hpresent, hrow⟩
  · rw [Vector.toList_replicate] at hc
    rw [List.eq_of_mem_replicate hc]
    exact Coefficient.signedCodable_zero h

theorem gives_regressionCodable (hvalid : h.Valid) :
    Run.Gives (readRegression h) fun p => p.IsCanonical ∧ p.IsCodable h := by
  refine .after fun order => .check fun horder => ?_
  refine .bind (Coefficient.gives_signed hvalid) fun constant hconstant => ?_
  refine .bind (gives_row hvalid _) fun r₀ h₀ => ?_
  refine .bind (gives_row hvalid _) fun r₁ h₁ => ?_
  refine .bind (gives_row hvalid _) fun r₂ h₂ => ?_
  refine .bind (.ofExcept fun _ hadd => Checked.within_eq_ok hadd) fun _ hadd => ?_
  obtain ⟨-, rfl⟩ := hadd
  refine .pure ⟨⟨?_, ?_⟩, hconstant, ?_⟩
  · refine h₁.1.imp_left fun hone => ?_
    rw [UInt8.le_iff_toNat_le, UInt8.toNat_ofNat']
    have hle : 1 ≤ order := of_decide_eq_true hone
    have htwo : (2 : UInt8).toNat = 2 := rfl
    omega
  · refine h₂.1.imp_left fun htwo => ?_
    rw [UInt8.le_iff_toNat_le, UInt8.toNat_ofNat']
    have hle : 2 ≤ order := of_decide_eq_true htwo
    have hthree : (3 : UInt8).toNat = 3 := rfl
    omega
  · intro row hrow
    have hmem : row ∈ [r₀, r₁, r₂] := hrow
    simp only [List.mem_cons, List.not_mem_nil, or_false] at hmem
    rcases hmem with rfl | rfl | rfl
    · exact h₀.2
    · exact h₁.2
    · exact h₂.2

theorem gives_pieceCodable (hvalid : h.Valid) :
    Run.Gives (readPiece h) fun p => p.IsCanonical ∧ p.IsCodable h := by
  refine .after fun method => ?_
  split
  · exact gives_polynomialCodable hvalid
  · exact gives_regressionCodable hvalid
  · exact .throw

/-- The pieces that are read between pivots leave the pivots as they were. -/
theorem gives_curve (hvalid : h.Valid) (pivots : List UInt16) :
    Run.Gives (readPieces h pivots) fun c =>
      c.pivots = pivots ∧ ∀ p ∈ c.pieces, p.IsCanonical ∧ p.IsCodable h :=
  .bind (gives_list (gives_pieceCodable hvalid) _) fun _ hpieces => .pure ⟨rfl, hpieces.2⟩

theorem gives_nlqMethod (h : Header) :
    Run.Gives (readNlqMethod h) fun x => DeltasFit h.baseLayerBitDepth.toNat 0 x.2.toList := by
  refine .after fun method => .check fun _ => ?_
  refine .bind (gives_bits32 _) fun delta₀ hdelta₀ => ?_
  refine .bind (.ofExcept fun _ hadd => (within_eq_ok hadd).2) fun first hfirst => ?_
  refine .bind (gives_bits32 _) fun delta₁ hdelta₁ => ?_
  refine .bind (.ofExcept fun _ hadd => (within_eq_ok hadd).2) fun second hsecond => .pure ?_
  subst hfirst hsecond
  exact List.isChain_cons_cons.2 ⟨delta_fits 0 hdelta₀,
    List.isChain_cons_cons.2 ⟨delta_fits _ hdelta₁, List.IsChain.singleton _⟩⟩

theorem gives_nlq (hvalid : h.Valid) : Run.Gives (readNlq h) (Nlq.IsCodable h) := by
  have hunsigned := Coefficient.gives_unsigned hvalid
  refine .bind (gives_u16 _) fun offset hoffset => ?_
  refine .bind hunsigned fun inMax hinMax => ?_
  refine .bind hunsigned fun slope hslope => ?_
  refine .bind hunsigned fun threshold hthreshold => ?_
  exact .pure ⟨hoffset, hinMax, hslope, hthreshold⟩

/-- What three components satisfy, all of them do. -/
theorem forall_mem_three {α : Type} {P : α → Prop} {a b c : α} (ha : P a) (hb : P b) (hc : P c) :
    ∀ x ∈ (#v[a, b, c] : Vector α 3).toList, P x :=
  List.forall_mem_cons.2 ⟨ha, List.forall_mem_cons.2 ⟨hb, List.forall_mem_singleton.2 hc⟩⟩

/-- **A mapping that was read is canonical**, and its numbers have codes. -/
theorem gives_canonical (hvalid : h.Valid) (id : Nat) (usesNlq : Bool) :
    Run.Gives (read h id usesNlq) fun m =>
      m.IsCanonical ∧ m.IsCodable h ∧ m.nlqMethod.isSome = usesNlq := by
  unfold read
  refine .after fun colorSpace => .after fun chromaFormat => ?_
  refine .bind (gives_curveDeltas h) fun p₀ h₀ => ?_
  refine .bind (gives_curveDeltas h) fun p₁ h₁ => ?_
  refine .bind (gives_curveDeltas h) fun p₂ h₂ => ?_
  refine .bindIf (Q := fun method => method.isSome = usesNlq ∧
      ∀ x, method = some x → DeltasFit h.baseLayerBitDepth.toNat 0 x.2.toList)
    (fun huses => (gives_nlqMethod h).map fun x hx => ⟨huses.symm, ?_⟩)
    (fun huses => .pure ⟨(Bool.not_eq_true _ ▸ huses).symm, nofun⟩) fun method hmethod => ?_
  · intro y hy
    rw [← Option.some.inj hy]
    exact hx
  refine .after fun codeX => .after fun partitionsX => .after fun codeY => ?_
  refine .after fun partitionsY => ?_
  refine .bind (gives_curve hvalid p₀) fun c₀ hc₀ => ?_
  refine .bind (gives_curve hvalid p₁) fun c₁ hc₁ => ?_
  refine .bind (gives_curve hvalid p₂) fun c₂ hc₂ => ?_
  refine .bindIf (Q := fun nlq => (usesNlq = false → nlq = Vector.replicate 3 {}) ∧
      (usesNlq = true → ∀ n ∈ nlq.toList, n.IsCodable h))
    (fun huses => (gives_times (gives_nlq hvalid) 3).mono fun nlq hnlq =>
      ⟨fun hnot => absurd huses (by rw [hnot]; decide), fun _ => hnlq⟩)
    (fun huses => .pure ⟨fun _ => rfl, fun huses' => absurd huses' huses⟩)
    fun nlq hnlq => .pure ?_
  obtain ⟨hsome, hdeltas⟩ := hmethod
  refine ⟨⟨?_, ?_, ?_⟩, ⟨?_, ?_, ?_, ?_⟩, ?_⟩
  · exact forall_mem_three (fun p hp => (hc₀.2 p hp).1) (fun p hp => (hc₁.2 p hp).1)
      fun p hp => (hc₂.2 p hp).1
  · intro hnone
    refine hnlq.1 ?_
    rw [← hsome, Option.map_eq_none_iff.1 hnone]
    rfl
  · intro hnone
    rw [Option.map_eq_none_iff.1 hnone]
    rfl
  · exact forall_mem_three (hc₀.1.symm ▸ h₀) (hc₁.1.symm ▸ h₁) (hc₂.1.symm ▸ h₂)
  · exact forall_mem_three (fun p hp => (hc₀.2 p hp).2) (fun p hp => (hc₁.2 p hp).2)
      fun p hp => (hc₂.2 p hp).2
  · intro hmap
    rw [Option.isSome_map] at hmap
    obtain ⟨x, rfl⟩ := Option.isSome_iff_exists.1 hmap
    exact hdeltas x rfl
  · intro hmap
    rw [Option.isSome_map] at hmap
    exact hnlq.2 (hsome ▸ hmap)
  · rw [Option.isSome_map]
    exact hsome

/-- The order of a well-formed piece passes its check. -/
theorem hasValidOrder_of_le {p : Piece} (h : 1 ≤ p.order ∧ p.order ≤ p.maxOrder) :
    p.hasValidOrder = true := by
  cases p with
  | polynomial order c =>
    obtain ⟨hlo, hhi⟩ : 1 ≤ order ∧ order ≤ 2 := h
    simp only [Piece.hasValidOrder, Bool.or_eq_true, beq_iff_eq]
    rw [UInt8.le_iff_toNat_le] at hlo hhi
    rw [← UInt8.toNat_inj, ← UInt8.toNat_inj]
    have hone : (1 : UInt8).toNat = 1 := rfl
    have htwo : (2 : UInt8).toNat = 2 := rfl
    omega
  | mmr order constant rows =>
    obtain ⟨hlo, hhi⟩ : 1 ≤ order ∧ order ≤ 3 := h
    simp only [Piece.hasValidOrder, Bool.and_eq_true, decide_eq_true_eq]
    exact ⟨hlo, hhi⟩

/-- A well-formed mapping passes the checks of an encoder, if it has a method of inverse
quantization exactly where one is needed. -/
theorem IsWellFormed.valid {m : Mapping} {id : Nat} {usesNlq : Bool} (hm : m.IsWellFormed id)
    (hid : id ≤ maxId) (hnlq : m.nlqMethod.isSome = usesNlq) : m.Valid usesNlq where
  id_le := by rwa [hm.id]
  shape := by
    intro c hc
    have hcurve := hm.curves c hc
    simp only [Curve.hasValidShape, Bool.and_eq_true, decide_eq_true_eq, beq_iff_eq]
    exact ⟨⟨hcurve.two_le, hcurve.le_nine⟩, hcurve.pieces⟩
  orders := fun c hc p hp => hasValidOrder_of_le ((hm.curves c hc).orders p hp)
  partitionsX := by
    intro hzero
    have hpos := hm.partitionsX
    rw [hzero] at hpos
    exact absurd hpos (by decide)
  partitionsY := by
    intro hzero
    have hpos := hm.partitionsY
    rw [hzero] at hpos
    exact absurd hpos (by decide)
  nlq := hnlq

end Mapping

/-! ### Color descriptions -/

/-- The fields of a description that was read fit in their bits. -/
theorem SourceColor.gives_fits (id sceneRefresh : UInt8) :
    Run.Gives (read id sceneRefresh) Fits := by
  refine .after fun yccToRgb => .after fun yccOffset => .after fun rgbToLms => ?_
  refine .after fun eotf => .after fun p₀ => .after fun p₁ => ?_
  refine .after fun p₂ => ?_
  refine .bind (gives_u8 5) fun bitDepth hdepth => ?_
  refine .check fun _ => ?_
  refine .bind (gives_u8 2) fun colorSpace hspace => ?_
  refine .bind (gives_u8 2) fun chromaFormat hchroma => ?_
  refine .bind (gives_u8 2) fun fullRange hrange => ?_
  refine .bind (gives_u16 12) fun minPq hmin => ?_
  refine .bind (gives_u16 12) fun maxPq hmax => ?_
  refine .bind (gives_u16 10) fun diagonal hdiagonal => ?_
  exact .pure ⟨hdepth, hspace, hchroma, hrange, hmin, hmax, hdiagonal⟩

/-! ### Blocks -/

namespace Block

/-- A field that may be left out fits, if what stands for its absence does. -/
theorem gives_readIf {α : Type} {P : α → Prop} {item : BitParser α} {absent : α} (present : Bool)
    (hitem : Run.Gives item P) (habsent : P absent) : Run.Gives (readIf present item absent) P :=
  .ite (fun _ => hitem) fun _ => .pure habsent

theorem gives_level1 : Run.Gives readLevel1 fun d => (level1 d).Fits := by
  refine .bind (gives_u16 12) fun _ hmin => ?_
  refine .bind (gives_u16 12) fun _ hmax => ?_
  refine .bind (gives_u16 12) fun _ havg => ?_
  exact .pure ⟨hmin, hmax, havg⟩

theorem gives_level2 : Run.Gives readLevel2 fun d => (level2 d).Fits := by
  refine .bind (gives_u16 12) fun _ htarget => ?_
  refine .bind (gives_u16 12) fun _ hslope => ?_
  refine .bind (gives_u16 12) fun _ hoffset => ?_
  refine .bind (gives_u16 12) fun _ hpower => ?_
  refine .bind (gives_u16 12) fun _ hchroma => ?_
  refine .bind (gives_u16 12) fun _ hgain => ?_
  refine .bind (gives_i16 (by decide : 12 < 16)) fun _ hweight => ?_
  exact .pure ⟨htarget, hslope, hoffset, hpower, hchroma, hgain, hweight⟩

theorem gives_level3 : Run.Gives readLevel3 fun d => (level3 d).Fits := by
  refine .bind (gives_u16 12) fun _ hmin => ?_
  refine .bind (gives_u16 12) fun _ hmax => ?_
  refine .bind (gives_u16 12) fun _ havg => ?_
  exact .pure ⟨hmin, hmax, havg⟩

theorem gives_level4 : Run.Gives readLevel4 fun d => (level4 d).Fits :=
  .bind (gives_u16 12) fun _ hpq => .bind (gives_u16 12) fun _ hpower => .pure ⟨hpq, hpower⟩

theorem gives_level5 : Run.Gives readLevel5 fun d => (level5 d).Fits := by
  refine .bind (gives_u16 13) fun _ hleft => ?_
  refine .bind (gives_u16 13) fun _ hright => ?_
  refine .bind (gives_u16 13) fun _ htop => ?_
  refine .bind (gives_u16 13) fun _ hbottom => ?_
  exact .pure ⟨hleft, hright, htop, hbottom⟩

theorem gives_level8 (length : Nat) : Run.Gives (readLevel8 length) fun d => (level8 d).Fits := by
  unfold readLevel8
  refine .check fun _ => .after fun index => ?_
  refine .bind (gives_u16 12) fun _ hslope => ?_
  refine .bind (gives_u16 12) fun _ hoffset => ?_
  refine .bind (gives_u16 12) fun _ hpower => ?_
  refine .bind (gives_u16 12) fun _ hchroma => ?_
  refine .bind (gives_u16 12) fun _ hgain => ?_
  refine .bind (gives_u16 12) fun _ hweight => ?_
  refine .bind (gives_readIf _ (gives_u16 12) (by decide)) fun _ hcontrast => ?_
  refine .bind (gives_readIf _ (gives_u16 12) (by decide)) fun _ hclip => ?_
  refine .after fun _ => .after fun _ => ?_
  exact .pure ⟨hslope, hoffset, hpower, hchroma, hgain, hweight, hcontrast, hclip⟩

theorem gives_level10 (length : Nat) :
    Run.Gives (readLevel10 length) fun d => (level10 d).Fits := by
  refine .after fun _ => ?_
  refine .bind (gives_u16 12) fun _ hmax => ?_
  refine .bind (gives_u16 12) fun _ hmin => ?_
  refine .after fun _ => .after fun _ => ?_
  exact .pure ⟨hmax, hmin⟩

theorem gives_level11 : Run.Gives readLevel11 fun d => (level11 d).Fits := by
  refine .after fun _ => ?_
  refine .bind (gives_u8 4) fun _ hwhite => ?_
  refine .after fun _ => .after fun _ => ?_
  refine .bind (gives_u8 2) fun _ hsharp => ?_
  refine .bind (gives_u8 2) fun _ hnoise => ?_
  refine .bind (gives_u8 2) fun _ hmpeg => ?_
  refine .bind (gives_u8 2) fun _ hrate => ?_
  refine .bind (gives_u8 2) fun _ hbright => ?_
  refine .bind (gives_u8 2) fun _ hcolor => ?_
  exact .pure ⟨hwhite, hsharp, hnoise, hmpeg, hrate, hbright, hcolor⟩

/-- A block that was read, if any, has fields that fit and belongs to the group in which it was
read. -/
def Received (group : BlockGroup) (block : Option Block) : Prop :=
  ∀ b, block = some b → b.Fits ∧ b.group = group

theorem received_none (group : BlockGroup) : Received group none := nofun

/-- What is known of a level is known of its blocks. -/
theorem gives_some {α : Type} {P : Block → Prop} {item : BitParser α} {make : α → Block}
    (hitem : Run.Gives item fun d => P (make d)) :
    Run.Gives (some <$> make <$> item) fun block => ∀ b, block = some b → P b := by
  refine (hitem.map (P := P) fun _ hd => hd).map fun b hb b' hb' => ?_
  rwa [← Option.some.inj hb']

/-- What is read of one level makes a block of the group of that level. -/
theorem gives_received {α : Type} {group : BlockGroup} {item : BitParser α} {make : α → Block}
    (hitem : Run.Gives item fun d => (make d).Fits) (hgroup : ∀ d, (make d).group = group) :
    Run.Gives (some <$> make <$> item) (Received group) :=
  gives_some (hitem.mono fun d hd => ⟨hd, hgroup d⟩)

/-- A level whose fields all have the width of their words. -/
theorem gives_whole {α : Type} {item : BitParser α} {make : α → Block}
    (hmake : ∀ d, (make d).Fits) : Run.Gives item fun d => (make d).Fits :=
  fun _ d _ _ => hmake d

/-- **The fields of a block that was read fit**, and it belongs to the group in which it was
read. -/
theorem gives_body (group : BlockGroup) (level : UInt8) (length : Nat) :
    Run.Gives (readBody group level length) (Received group) := by
  cases group with
  | first =>
    change Run.Gives (readFirst level) _
    unfold readFirst
    split
    · exact gives_received gives_level1 fun _ => rfl
    · exact gives_received gives_level2 fun _ => rfl
    · exact gives_received gives_level4 fun _ => rfl
    · exact gives_received gives_level5 fun _ => rfl
    · exact gives_received (gives_whole fun _ => trivial) fun _ => rfl
    · exact gives_received (gives_whole fun _ => trivial) fun _ => rfl
    · exact .pure (received_none _)
  | second =>
    change Run.Gives (readSecond level length) _
    unfold readSecond
    split
    · exact gives_received gives_level3 fun _ => rfl
    · exact gives_received (gives_level8 length) fun _ => rfl
    · exact gives_received (gives_whole fun _ => trivial) fun _ => rfl
    · exact gives_received (gives_level10 length) fun _ => rfl
    · exact gives_received gives_level11 fun _ => rfl
    · exact gives_received (gives_whole fun _ => trivial) fun _ => rfl
    · exact .pure (received_none _)

end Block

/-! ### Sets of blocks -/

namespace BlockSet

/-- The blocks of a set come from the groups up to `group`: they fit, and in each sort the blocks of
CM 2.9 are in front of those of CM 4.0. -/
structure ReceivedUpTo (group : BlockGroup) (s : BlockSet) : Prop extends IsWellFormed s where
  fits : ∀ b ∈ s.toList, b.Fits
  staticOrder : s.static.Pairwise fun a b => a.isCmV4 = true → b.isCmV4 = true
  dynamicOrder : s.dynamic.Pairwise fun a b => a.isCmV4 = true → b.isCmV4 = true
  upTo : group = .first → ∀ b ∈ s.toList, b.isCmV4 = false

variable {group : BlockGroup} {s s' : BlockSet} {b : Block}

theorem receivedUpTo_empty (group : BlockGroup) : ReceivedUpTo group {} where
  toIsWellFormed := wellFormed_empty
  fits := nofun
  staticOrder := .nil
  dynamicOrder := .nil
  upTo := fun _ => nofun

/-- The second group follows the first one. -/
theorem ReceivedUpTo.second (h : ReceivedUpTo .first s) : ReceivedUpTo .second s :=
  { h with upTo := nofun }

theorem mem_toList_append {blocks : List Block} :
    b ∈ (s.append blocks).toList ↔ b ∈ s.toList ∨ b ∈ blocks := by
  simp only [toList, append, List.mem_append, List.mem_filter]
  cases b.isStatic <;> grind

/-- A block behind others of its sort keeps their order, if it comes from the last group so far. -/
theorem pairwise_behind {blocks : List Block} {p : Block → Bool}
    (h : blocks.Pairwise fun a b => a.isCmV4 = true → b.isCmV4 = true)
    (hfirst : group = .first → ∀ a ∈ blocks, a.isCmV4 = false) (hb : b.group = group) :
    (blocks ++ [b].filter p).Pairwise fun a b => a.isCmV4 = true → b.isCmV4 = true := by
  refine List.pairwise_append.2 ⟨h, (List.pairwise_singleton _ _).filter p, ?_⟩
  intro a ha b' hb' hlater
  obtain rfl := List.mem_singleton.1 (List.mem_filter.1 hb').1
  cases group with
  | first => exact absurd (hfirst rfl a ha) (by rw [hlater]; decide)
  | second =>
    unfold Block.group at hb
    split at hb
    · case isTrue hcm => exact hcm
    · cases hb

/-- A block of the last group so far is kept behind the others of its sort. -/
theorem ReceivedUpTo.push (h : ReceivedUpTo group s) (hfits : b.Fits) (hgroup : b.group = group)
    (hpush : s.push b = .ok s') : ReceivedUpTo group s' := by
  have hwell := h.toIsWellFormed.push hpush
  obtain ⟨-, rfl⟩ := (push_eq_ok_iff h.limits).1 hpush
  refine ⟨hwell, ?_, ?_, ?_, ?_⟩
  · intro b' hb'
    rcases mem_toList_append.1 hb' with hb' | hb'
    · exact h.fits b' hb'
    · rw [List.mem_singleton.1 hb']
      exact hfits
  · exact pairwise_behind h.staticOrder
      (fun hfirst a ha => h.upTo hfirst a (List.mem_append_left _ ha)) hgroup
  · exact pairwise_behind h.dynamicOrder
      (fun hfirst a ha => h.upTo hfirst a (List.mem_append_right _ ha)) hgroup
  · intro hfirst b' hb'
    rcases mem_toList_append.1 hb' with hb' | hb'
    · exact h.upTo hfirst b' hb'
    · rw [List.mem_singleton.1 hb']
      unfold Block.group at hgroup
      split at hgroup
      · rw [hfirst] at hgroup
        cases hgroup
      · case isFalse hcm => exact Bool.not_eq_true _ ▸ hcm

/-- **The blocks of a set are listed in the order in which they are sent.** -/
theorem ReceivedUpTo.inSendingOrder (h : ReceivedUpTo group s) : InSendingOrder s.toList := by
  refine List.pairwise_append.2 ⟨?_, ?_, ?_⟩
  · refine h.staticOrder.imp_of_mem fun ha hb hab => ⟨fun hdynamic => ?_, fun _ => hab⟩
    rw [h.sorted.static _ ha] at hdynamic
    cases hdynamic
  · exact h.dynamicOrder.imp_of_mem fun ha hb hab =>
      ⟨fun _ => h.sorted.dynamic _ hb, fun _ => hab⟩
  · intro a ha b hb
    have ha := h.sorted.static a ha
    have hb := h.sorted.dynamic b hb
    refine ⟨fun _ => hb, fun hsame => ?_⟩
    rw [ha, hb] at hsame
    cases hsame

/-- A set is built again from the list of its blocks. -/
theorem append_toList (h : s.Sorted) : ({} : BlockSet).append s.toList = s := by
  have hstatic : s.toList.filter Block.isStatic = s.static := by
    rw [toList, List.filter_append, List.filter_eq_self.2 h.static, List.filter_eq_nil_iff.2,
      List.append_nil]
    intro b hb
    rw [h.dynamic b hb]
    decide
  have hdynamic : s.toList.filter (fun b => !b.isStatic) = s.dynamic := by
    rw [toList, List.filter_append, List.filter_eq_nil_iff.2, List.nil_append,
      List.filter_eq_self.2]
    · intro b hb
      rw [h.dynamic b hb]
      rfl
    · intro b hb
      rw [h.static b hb]
      decide
  rw [append, hstatic, hdynamic]
  rfl

theorem IsWellFormed.ofList_toList (h : s.IsWellFormed) : ofList s.toList = .ok s := by
  refine (foldlM_push_eq_ok_iff withinLimits_empty).2 ?_
  rw [append_toList h.sorted]
  exact ⟨h.limits, rfl⟩

end BlockSet

/-! ### Groups -/

namespace BlockGroup

variable {group : BlockGroup} {compressed : Bool} {strictness : Strictness} {kept : BlockSet}

theorem gives_padded (group : BlockGroup) (level : UInt8) (length : Nat) :
    Run.Gives (readPadded group level length) (Block.Received group) := by
  refine .after fun _ => .after fun _ => ?_
  refine .bind (Block.gives_body group level length) fun _ hblock => ?_
  refine .after fun _ => .after fun _ => .check fun _ => ?_
  refine .after fun _ => .after fun _ => .after fun _ => ?_
  exact .pure hblock

theorem gives_keptBlock (hkept : kept.ReceivedUpTo group) :
    Run.Gives (readBlock group compressed strictness kept) (BlockSet.ReceivedUpTo group) := by
  refine .after fun length => .after fun level => .after fun size => ?_
  refine .after fun left => .check fun _ => .after fun passed => ?_
  refine .ite (fun _ => ?_) fun _ => ?_
  · exact .after fun amount => .after fun _ => .pure hkept
  · refine .bind (gives_padded group level length).lift fun block hblock => ?_
    cases block with
    | some block =>
      exact .ofExcept fun _ hpush => hkept.push (hblock _ rfl).1 (hblock _ rfl).2 hpush
    | none => exact .after fun _ => .pure hkept

theorem gives_keptBlocks (n : Nat) (hkept : kept.ReceivedUpTo group) :
    Run.Gives (readBlocks group compressed strictness n kept) (BlockSet.ReceivedUpTo group) := by
  induction n generalizing kept with
  | zero => exact .pure hkept
  | succ n ih => exact .bind (gives_keptBlock hkept) fun _ hmore => ih hmore

/-- **Blocks are kept in the order in which they are sent.** -/
theorem gives_received (hkept : kept.ReceivedUpTo group) :
    Run.Gives (read group compressed strictness kept) (BlockSet.ReceivedUpTo group) :=
  .after fun count => .after fun _ => gives_keptBlocks count hkept

end BlockGroup

end DolbyVision
