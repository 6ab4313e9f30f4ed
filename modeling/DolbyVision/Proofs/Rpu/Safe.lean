/-
**The parts of an RPU are read without a defect.**

Every part of an RPU is read safely, in front of any bits.  The reads of a header establish the
bounds on which the reads of a mapping rely: a bit depth has at most 16 bits, so the sum of nine
differences of pivots fits in a word of 32, and coefficients have at most 32 fraction bits.  A block
is refused unless its bits are there, so its length in bits fits in such a word as well, and what is
left of it behind its body is measured.

Main results:

* `DolbyVision.Header.safe_read`, `DolbyVision.Mapping.safe_read`,
  `DolbyVision.SourceColor.safe_read` — **headers, mappings and color descriptions are read
  safely**;
* `DolbyVision.BlockGroup.safe_block`, `DolbyVision.BlockGroup.safe_read` — **so are extension
  blocks**.
-/

import DolbyVision.Proofs.Bits.Safe
import DolbyVision.Proofs.Rpu.Readable

set_option relaxedAutoImplicit false
set_option autoImplicit false

namespace DolbyVision

open Bits

/-! ### Headers -/

namespace Header

theorem safe_fractionWidth (type : UInt8) : Safe (readFractionWidth type) := by
  refine .ite (fun _ => ?_) fun _ => ?_
  · refine safe_unsignedCode.bind fun _ => ?_
    exact .ite (fun _ => .pure _) fun _ => .throw not_false
  · exact .ite (fun _ => .pure _) fun _ => .throw not_false

/-- **A header is read safely.** -/
theorem safe_read (rpuType : UInt8) (strictness : Strictness) :
    Safe (read rpuType strictness) := by
  unfold read
  refine (safe_u16 (by decide)).bind fun format => ?_
  refine (safe_u8 (by decide)).bind fun profile => ?_
  refine (safe_u8 (by decide)).bind fun level => ?_
  refine safe_flag.bind fun info => ?_
  refine .check not_false fun _ => ?_
  refine safe_flag.bind fun filter => ?_
  refine (safe_u8 (by decide)).bind fun type => ?_
  refine (safe_fractionWidth type).bind fun width => ?_
  refine (safe_u8 (by decide)).bind fun idc => ?_
  refine safe_flag.bind fun fullRange => ?_
  refine .check not_false fun _ => ?_
  refine safe_unsignedCode.bind fun base => ?_
  refine safe_unsignedCode.bind fun enhancement => ?_
  refine safe_unsignedCode.bind fun output => ?_
  refine .check not_false fun hdepths => ?_
  refine safe_flag.bind fun resampling => ?_
  refine (safe_bits32 (by decide)).bind fun reserved => ?_
  refine .check not_false fun _ => ?_
  refine safe_flag.bind fun filter => ?_
  refine safe_flag.bind fun disable => ?_
  -- A distance of at most eight does not carry a depth out of a byte.
  refine .bindOk (Checked.add_of_lt (by omega)) ?_
  refine .bindOk (Checked.add_of_lt (by omega)) ?_
  refine .bindOk (Checked.add_of_lt (by omega)) ?_
  exact .pure _

/-- A bit depth is the width of a read. -/
theorem isBitDepth_le {depth : UInt8} (h : isBitDepth depth = true) : depth.toNat ≤ 32 := by
  have hle := (isBitDepth_iff.1 h).2
  omega

end Header

/-! ### Coefficients -/

namespace Coefficient

variable {h : Header}

theorem safe_scaled (hvalid : h.Valid) : Safe (readScaled h) := by
  have hwidth : fractionWidth h < 64 := lt_of_le_of_lt hvalid.fraction_le (by decide)
  refine (safe_u32 (by decide)).bind fun _ => ?_
  exact .bindOk (scale_of_lt hwidth) (.pure _)

theorem safe_signed (hvalid : h.Valid) : Safe (readSigned h) := by
  have hfraction : fractionWidth h ≤ 64 := le_trans hvalid.fraction_le (by decide)
  refine .ite (fun _ => ?_) fun _ => ?_
  · refine safe_signedCode.bind fun _ => ?_
    refine (safe_bits hfraction).bind fun _ => ?_
    exact .bindOk (shiftAmount_eq hvalid) (.pure _)
  · refine (safe_scaled hvalid).bind fun _ => ?_
    exact .pure _

theorem safe_unsigned (hvalid : h.Valid) : Safe (readUnsigned h) := by
  have hfraction : fractionWidth h ≤ 64 := le_trans hvalid.fraction_le (by decide)
  refine .ite (fun _ => ?_) fun _ => ?_
  · refine safe_unsignedCode.bind fun _ => ?_
    refine (safe_bits hfraction).bind fun _ => ?_
    exact .bindOk (shiftAmount_eq hvalid) (.pure _)
  · refine (safe_scaled hvalid).bind fun _ => ?_
    exact .pure _

end Coefficient

/-! ### Mappings -/

namespace Mapping

variable {h : Header}

/-- Pivots are added up in a word of 32 bits, which `n` more differences do not fill. -/
theorem safe_pivots {depth : Nat} (hdepth : depth ≤ 16) {n previous : Nat}
    (hroom : previous + n * 2 ^ 16 < 2 ^ 32) : Safe (readPivots depth n previous) := by
  induction n generalizing previous with
  | zero => exact .pure []
  | succ n ih =>
    have hpow : 2 ^ depth ≤ 2 ^ 16 := Nat.pow_le_pow_right (by decide) hdepth
    refine (safe_bits32 (by omega)).bindGives (gives_bits32 depth) fun delta hdelta => ?_
    have hsum : Checked.add 32 previous delta = .ok (previous + delta) :=
      Checked.add_of_lt (by omega)
    exact .bindOk hsum ((ih (by omega)).bind fun _ => .pure _)

theorem safe_curvePivots (hvalid : h.Valid) : Safe (readCurvePivots h) := by
  refine safe_unsignedCode.bind fun count => ?_
  refine .check not_false fun hcount => ?_
  unfold maxPivots at hcount
  exact safe_pivots (Header.isBitDepth_iff.1 hvalid.baseLayer).2 (by omega)

theorem safe_polynomial (hvalid : h.Valid) : Safe (readPolynomial h) := by
  have hsigned := Coefficient.safe_signed hvalid
  refine safe_unsignedCode.bind fun order => ?_
  refine .check not_false fun horder => ?_
  have hdegree : Checked.add 8 order 1 = .ok (order + 1) := Checked.add_of_lt (by omega)
  refine .ite (fun _ => safe_flag.bind fun linear => .check not_false fun _ => ?_) fun _ => ?_
  all_goals
    refine hsigned.bind fun c₀ => ?_
    refine hsigned.bind fun c₁ => ?_
    refine .bindIf (fun _ => hsigned) (fun _ => .pure 0) fun c₂ => ?_
    exact .bindOk hdegree (.pure _)

theorem safe_row (hvalid : h.Valid) (present : Bool) : Safe (readRow h present) :=
  .ite (fun _ => safe_times (Coefficient.safe_signed hvalid) 7) fun _ => .pure _

theorem safe_regression (hvalid : h.Valid) : Safe (readRegression h) := by
  refine (safe_bits32 (by decide)).bind fun order => ?_
  refine .check not_false fun horder => ?_
  have hdegree : Checked.add 8 order 1 = .ok (order + 1) := Checked.add_of_lt (by omega)
  refine (Coefficient.safe_signed hvalid).bind fun constant => ?_
  refine (safe_row hvalid _).bind fun r₀ => ?_
  refine (safe_row hvalid _).bind fun r₁ => ?_
  refine (safe_row hvalid _).bind fun r₂ => ?_
  exact .bindOk hdegree (.pure _)

theorem safe_piece (hvalid : h.Valid) : Safe (readPiece h) := by
  refine safe_unsignedCode.bind fun method => ?_
  split
  · exact safe_polynomial hvalid
  · exact safe_regression hvalid
  · exact .throw not_false

theorem safe_pieces (hvalid : h.Valid) (pivots : List UInt16) : Safe (readPieces h pivots) :=
  (safe_list (safe_piece hvalid) _).bind fun _ => .pure _

theorem safe_nlqMethod (hvalid : h.Valid) : Safe (readNlqMethod h) := by
  have hdepth := (Header.isBitDepth_iff.1 hvalid.baseLayer).2
  have hwidth := Header.isBitDepth_le hvalid.baseLayer
  have hpow : 2 ^ h.baseLayerBitDepth.toNat ≤ 2 ^ 16 := Nat.pow_le_pow_right (by decide) hdepth
  refine (safe_bits32 (by decide)).bind fun method => ?_
  refine .check not_false fun _ => ?_
  refine (safe_bits32 hwidth).bindGives (gives_bits32 _) fun delta₀ hdelta₀ => ?_
  have hfirst : Checked.add 32 0 delta₀ = .ok (0 + delta₀) := Checked.add_of_lt (by omega)
  refine .bindOk hfirst ((safe_bits32 hwidth).bindGives (gives_bits32 _) fun delta₁ hdelta₁ => ?_)
  have hsecond : Checked.add 32 (0 + delta₀) delta₁ = .ok (0 + delta₀ + delta₁) :=
    Checked.add_of_lt (by omega)
  exact .bindOk hsecond (.pure _)

theorem safe_nlq (hvalid : h.Valid) : Safe (readNlq h) := by
  have hunsigned := Coefficient.safe_unsigned hvalid
  refine (safe_u16 (Header.isBitDepth_le hvalid.enhancementLayer)).bind fun _ => ?_
  refine hunsigned.bind fun _ => ?_
  refine hunsigned.bind fun _ => ?_
  refine hunsigned.bind fun _ => ?_
  exact .pure _

/-- The number of partitions is one more than a code, and still fits in its word. -/
theorem partitions_eq {code : Nat} (hcode : code ≤ maxCode) :
    Checked.add 32 code 1 = .ok (code + 1) := by
  unfold maxCode at hcode
  exact Checked.add_of_lt (by omega)

/-- **A mapping is read safely** behind a valid header. -/
theorem safe_read (hvalid : h.Valid) (id : Nat) (usesNlq : Bool) : Safe (read h id usesNlq) := by
  unfold read
  refine safe_unsignedCode.bind fun colorSpace => ?_
  refine safe_unsignedCode.bind fun chromaFormat => ?_
  refine (safe_curvePivots hvalid).bind fun p₀ => ?_
  refine (safe_curvePivots hvalid).bind fun p₁ => ?_
  refine (safe_curvePivots hvalid).bind fun p₂ => ?_
  refine .bindIf (fun _ => (safe_nlqMethod hvalid).map some) (fun _ => .pure none) fun method => ?_
  refine safe_unsignedCode.bindGives gives_unsignedCode fun codeX hcodeX =>
    .bindOk (partitions_eq hcodeX) ?_
  refine safe_unsignedCode.bindGives gives_unsignedCode fun codeY hcodeY =>
    .bindOk (partitions_eq hcodeY) ?_
  refine (safe_pieces hvalid p₀).bind fun c₀ => ?_
  refine (safe_pieces hvalid p₁).bind fun c₁ => ?_
  refine (safe_pieces hvalid p₂).bind fun c₂ => ?_
  exact .bindIf (fun _ => safe_times (safe_nlq hvalid) 3) (fun _ => .pure _) fun _ => .pure _

end Mapping

/-! ### Color descriptions -/

/-- **A color description is read safely.** -/
theorem SourceColor.safe_read (id sceneRefresh : UInt8) : Safe (read id sceneRefresh) := by
  have hmatrix : Safe (Reader.times 9 (Reader.i16 16)) := safe_times (safe_i16 (by decide)) 9
  have hword : Safe (Reader.u16 16) := safe_u16 (by decide)
  refine hmatrix.bind fun _ => ?_
  refine (safe_times (safe_u32 (by decide)) 3).bind fun _ => ?_
  refine hmatrix.bind fun _ => ?_
  refine hword.bind fun _ => ?_
  refine hword.bind fun _ => ?_
  refine hword.bind fun _ => ?_
  refine (safe_u32 (by decide)).bind fun _ => ?_
  refine (safe_u8 (by decide)).bind fun bitDepth => ?_
  refine .check not_false fun _ => ?_
  refine (safe_u8 (by decide)).bind fun _ => ?_
  refine (safe_u8 (by decide)).bind fun _ => ?_
  refine (safe_u8 (by decide)).bind fun _ => ?_
  refine (safe_u16 (by decide)).bind fun _ => ?_
  refine (safe_u16 (by decide)).bind fun _ => ?_
  refine (safe_u16 (by decide)).bind fun _ => ?_
  exact .pure _

/-! ### Blocks -/

namespace Block

theorem safe_readIf {α : Type} {item : BitParser α} (present : Bool) (hitem : Safe item)
    (absent : α) : Safe (readIf present item absent) :=
  .ite (fun _ => hitem) fun _ => .pure absent

theorem safe_chromaticities : Safe readChromaticities := by
  have hword : Safe (Reader.i16 16) := safe_i16 (by decide)
  refine hword.bind fun _ => ?_
  refine hword.bind fun _ => ?_
  refine hword.bind fun _ => ?_
  refine hword.bind fun _ => ?_
  refine hword.bind fun _ => ?_
  refine hword.bind fun _ => ?_
  refine hword.bind fun _ => ?_
  refine hword.bind fun _ => ?_
  exact .pure _

theorem safe_level8 (length : Nat) : Safe (readLevel8 length) := by
  have hword : Safe (Reader.u16 12) := safe_u16 (by decide)
  have hbytes : Safe (Reader.times 6 (Reader.u8 8)) := safe_times (safe_u8 (by decide)) 6
  unfold readLevel8
  refine .check not_false fun _ => ?_
  refine (safe_u8 (by decide)).bind fun _ => ?_
  refine hword.bind fun _ => ?_
  refine hword.bind fun _ => ?_
  refine hword.bind fun _ => ?_
  refine hword.bind fun _ => ?_
  refine hword.bind fun _ => ?_
  refine hword.bind fun _ => ?_
  refine (safe_readIf _ hword 0).bind fun _ => ?_
  refine (safe_readIf _ hword 0).bind fun _ => ?_
  refine (safe_readIf _ hbytes _).bind fun _ => ?_
  refine (safe_readIf _ hbytes _).bind fun _ => ?_
  exact .pure _

theorem safe_level11 : Safe readLevel11 := by
  have hpair : Safe (Reader.u8 2) := safe_u8 (by decide)
  refine (safe_u8 (by decide)).bind fun _ => ?_
  refine (safe_u8 (by decide)).bind fun _ => ?_
  refine safe_flag.bind fun _ => ?_
  refine (safe_skip 3).bind fun _ => ?_
  refine hpair.bind fun _ => ?_
  refine hpair.bind fun _ => ?_
  refine hpair.bind fun _ => ?_
  refine hpair.bind fun _ => ?_
  refine hpair.bind fun _ => ?_
  refine hpair.bind fun _ => ?_
  exact .pure _

theorem safe_first (level : UInt8) : Safe (readFirst level) := by
  have hbyte : Safe (Reader.u8 8) := safe_u8 (by decide)
  have h12 : Safe (Reader.u16 12) := safe_u16 (by decide)
  have h13 : Safe (Reader.u16 13) := safe_u16 (by decide)
  have h16 : Safe (Reader.u16 16) := safe_u16 (by decide)
  unfold readFirst
  split
  · refine (Safe.map ?_ level1).map some
    refine h12.bind fun _ => ?_
    refine h12.bind fun _ => ?_
    refine h12.bind fun _ => ?_
    exact .pure _
  · refine (Safe.map ?_ level2).map some
    refine h12.bind fun _ => ?_
    refine h12.bind fun _ => ?_
    refine h12.bind fun _ => ?_
    refine h12.bind fun _ => ?_
    refine h12.bind fun _ => ?_
    refine h12.bind fun _ => ?_
    refine (safe_i16 (by decide)).bind fun _ => ?_
    exact .pure _
  · refine (Safe.map ?_ level4).map some
    refine h12.bind fun _ => ?_
    refine h12.bind fun _ => ?_
    exact .pure _
  · refine (Safe.map ?_ level5).map some
    refine h13.bind fun _ => ?_
    refine h13.bind fun _ => ?_
    refine h13.bind fun _ => ?_
    refine h13.bind fun _ => ?_
    exact .pure _
  · refine (Safe.map ?_ level6).map some
    refine h16.bind fun _ => ?_
    refine h16.bind fun _ => ?_
    refine h16.bind fun _ => ?_
    refine h16.bind fun _ => ?_
    exact .pure _
  · refine (Safe.map ?_ level255).map some
    refine hbyte.bind fun _ => ?_
    refine hbyte.bind fun _ => ?_
    refine (safe_times hbyte 4).bind fun _ => ?_
    exact .pure _
  · exact .pure none

theorem safe_second (level : UInt8) (length : Nat) : Safe (readSecond level length) := by
  have hbyte : Safe (Reader.u8 8) := safe_u8 (by decide)
  have h12 : Safe (Reader.u16 12) := safe_u16 (by decide)
  unfold readSecond
  split
  · refine (Safe.map ?_ level3).map some
    refine h12.bind fun _ => ?_
    refine h12.bind fun _ => ?_
    refine h12.bind fun _ => ?_
    exact .pure _
  · exact ((safe_level8 length).map level8).map some
  · refine (Safe.map ?_ level9).map some
    refine hbyte.bind fun _ => ?_
    refine (safe_readIf _ safe_chromaticities _).bind fun _ => ?_
    exact .pure _
  · refine (Safe.map ?_ level10).map some
    refine hbyte.bind fun _ => ?_
    refine h12.bind fun _ => ?_
    refine h12.bind fun _ => ?_
    refine hbyte.bind fun _ => ?_
    refine (safe_readIf _ safe_chromaticities _).bind fun _ => ?_
    exact .pure _
  · exact (safe_level11.map level11).map some
  · refine (Safe.map ?_ level254).map some
    refine hbyte.bind fun _ => ?_
    refine hbyte.bind fun _ => ?_
    exact .pure _
  · exact .pure none

/-- **The body of a block is read safely**, of whatever level and length. -/
theorem safe_body (group : BlockGroup) (level : UInt8) (length : Nat) :
    Safe (readBody group level length) := by
  cases group with
  | first => exact safe_first level
  | second => exact safe_second level length

end Block

/-! ### Reading with notes -/

section Decoder

variable {α β : Type} {p : BitParser α}

/-- A safe read is safe as a part of a decoder. -/
theorem Bits.Safe.lift (h : Safe p) : Safe (liftM p : Decoder α) where
  ok := by
    intro s a s' hs hrun
    cases hp : p s.reader with
    | ok a' r =>
      rw [Decoder.lift_ok hp] at hrun
      cases hrun
      exact h.ok s.reader a r ⟨hs.sound, hs.length_lt⟩ hp
    | error fault r =>
      rw [Decoder.lift_error hp] at hrun
      cases hrun
  error := by
    intro s fault s' hs hrun
    cases hp : p s.reader with
    | ok a r =>
      rw [Decoder.lift_ok hp] at hrun
      cases hrun
    | error fault' r =>
      rw [Decoder.lift_error hp] at hrun
      cases hrun
      exact h.error s.reader fault r ⟨hs.sound, hs.length_lt⟩ hp

/-- Reporting a note is safe. -/
theorem Decoder.safe_report (note : Note) : Safe (Decoder.report note) where
  ok := by
    intro s a s' hs hrun
    cases hrun
    exact ⟨hs.sound, le_rfl⟩
  error := by
    intro s fault s' _ hrun
    cases hrun

/-- What follows may rely on how few bits are left. -/
theorem Decoder.safe_bitsLeft {f : Nat → Decoder β} (h : ∀ n, n < 2 ^ 32 → Safe (f n)) :
    Safe (Decoder.bitsLeft >>= f) where
  ok := fun s b s' hs hrun =>
    have hready : Ready s.reader := ⟨hs.sound, hs.length_lt⟩
    (h _ hready.bitsLeft_lt).ok s b s' hs hrun
  error := fun s fault s' hs hrun =>
    have hready : Ready s.reader := ⟨hs.sound, hs.length_lt⟩
    (h _ hready.bitsLeft_lt).error s fault s' hs hrun

end Decoder

/-! ### Groups -/

/-- Adding a block comes upon no defect: at worst there is no room for it. -/
theorem BlockSet.clean_push (s : BlockSet) (b : Block) : Checked.Clean (s.push b) :=
  .ite (fun _ => .ite (fun _ => .error not_false) fun _ => .ok _)
    fun _ => .ite (fun _ => .error not_false) fun _ => .ok _

namespace BlockGroup

variable {group : BlockGroup} {compressed : Bool} {strictness : Strictness} {kept : BlockSet}

theorem safe_passesOver (level : UInt8) : Safe (passesOver compressed strictness kept level) := by
  unfold passesOver
  refine .ite (fun _ => .ite (fun _ => ?_) fun _ => ?_) fun _ => ?_
  · refine (Decoder.safe_report _).bind fun _ => ?_
    refine .check not_false fun _ => ?_
    exact .pure true
  all_goals
    exact .ite (fun _ => (Decoder.safe_report _).bind fun _ => .pure true) fun _ => .pure false

/-- What is left of a block behind its body is skipped: a body is measured, and refused if it is
longer than its block. -/
theorem safe_padded (level : UInt8) {length : Nat} (hlength : 8 * length < 2 ^ 32) :
    Safe (readPadded group level length) := by
  have hmul : Checked.mul 64 8 length = .ok (8 * length) := Checked.mul_of_lt (by omega)
  refine .bindOk hmul (.measured (f := fun before block after => do
    let taken ← Checked.sub before after
    if 8 * length < taken then
      throw (.malformed .blockOverrun)
    let padding ← Checked.sub (8 * length) taken
    Reader.skip (← Checked.within 32 padding)
    return block) (Block.safe_body group level length) fun before block after hle => ?_)
  refine .bindOk (Checked.sub_of_le hle) (.check not_false fun hfits => ?_)
  have hpadding : 8 * length - (before - after) < 1 <<< 32 := by
    rw [Nat.one_shiftLeft]
    omega
  exact .bindOk (Checked.sub_of_le (Nat.not_lt.1 hfits))
    (.bindOk (Checked.within_of_lt hpadding) ((safe_skip _).bind fun _ => .pure _))

/-- **A block is read safely**: it is refused unless its bits are there. -/
theorem safe_block : Safe (readBlock group compressed strictness kept) := by
  refine safe_unsignedCode.lift.bindGives gives_unsignedCode.lift fun length hlength => ?_
  refine (safe_u8 (by decide)).lift.bind fun level => ?_
  have hmul : Checked.mul 64 8 length = .ok (8 * length) := by
    unfold maxCode at hlength
    exact Checked.mul_of_lt (by omega)
  refine .bindOk hmul (Decoder.safe_bitsLeft fun left hleft => .check not_false fun hfits => ?_)
  have hlength : 8 * length < 2 ^ 32 := by omega
  refine (safe_passesOver level).bind fun passed => .ite (fun _ => ?_) fun _ => ?_
  · exact .bindOk (Checked.mul_of_lt hlength) ((safe_skip _).lift.bind fun _ => .pure kept)
  · refine (safe_padded level hlength).lift.bind fun block => ?_
    cases block with
    | some block => exact .ofExcept (kept.clean_push block)
    | none => exact (Decoder.safe_report _).bind fun _ => .pure kept

theorem safe_blocks (n : Nat) : Safe (readBlocks group compressed strictness n kept) := by
  induction n generalizing kept with
  | zero => exact .pure kept
  | succ n ih => exact safe_block.bind fun _ => ih

/-- **A group of blocks is read safely.** -/
theorem safe_read : Safe (read group compressed strictness kept) := by
  refine safe_unsignedCode.lift.bind fun count => ?_
  refine safe_realign.lift.bind fun _ => ?_
  exact safe_blocks count

end BlockGroup

end DolbyVision
