/-
**The parts of an RPU are read locally.**

Whether the parts of an RPU are there, and what they say, does not depend on what stands behind
them.  A header, a mapping and a color description are local without a condition; blocks start at a
byte boundary and are refused unless their bits are there, so they are local among RPUs of one
length.

Main results:

* `DolbyVision.Header.local_read`, `DolbyVision.Mapping.local_read`,
  `DolbyVision.SourceColor.local_read` — **headers, mappings and color descriptions are read
  locally**;
* `DolbyVision.BlockGroup.local_read` — **so are groups of blocks**, among RPUs of one length.
-/

import DolbyVision.Proofs.Bits.Local
import DolbyVision.Proofs.Rpu.BlockGroup
import DolbyVision.Rpu.Mapping
import DolbyVision.Rpu.SourceColor
import DolbyVision.Rpu.Header

set_option relaxedAutoImplicit false
set_option autoImplicit false

namespace DolbyVision

open Bits

variable {sized : Prop}

/-! ### Headers -/

namespace Header

theorem local_fractionWidth (type : UInt8) : Local sized (readFractionWidth type) := by
  refine .ite (fun _ => ?_) fun _ => ?_
  · refine local_unsignedCode.bind fun _ => ?_
    exact .ite (fun _ => .pure _) fun _ => .throw
  · exact .ite (fun _ => .pure _) fun _ => .throw

/-- **A header is read locally.** -/
theorem local_read (rpuType : UInt8) (strictness : Strictness) :
    Local sized (read rpuType strictness) := by
  unfold read
  refine (local_u16 _).bind fun format => ?_
  refine (local_u8 _).bind fun profile => ?_
  refine (local_u8 _).bind fun level => ?_
  refine local_flag.bind fun info => ?_
  refine .check fun _ => ?_
  refine local_flag.bind fun filter => ?_
  refine (local_u8 _).bind fun type => ?_
  refine (local_fractionWidth type).bind fun width => ?_
  refine (local_u8 _).bind fun idc => ?_
  refine local_flag.bind fun fullRange => ?_
  refine .check fun _ => ?_
  refine local_unsignedCode.bind fun base => ?_
  refine local_unsignedCode.bind fun enhancement => ?_
  refine local_unsignedCode.bind fun output => ?_
  refine .check fun _ => ?_
  refine local_flag.bind fun resampling => ?_
  refine (local_bits32 _).bind fun reserved => ?_
  refine .check fun _ => ?_
  refine local_flag.bind fun filter => ?_
  refine local_flag.bind fun disable => ?_
  refine (Local.ofExcept _).bind fun baseDepth => ?_
  refine (Local.ofExcept _).bind fun enhancementDepth => ?_
  refine (Local.ofExcept _).bind fun outputDepth => ?_
  exact .pure _

end Header

/-! ### Coefficients -/

namespace Coefficient

variable (h : Header)

theorem local_scaled : Local sized (readScaled h) := by
  refine (local_u32 _).bind fun _ => ?_
  refine (Local.ofExcept _).bind fun _ => ?_
  exact .pure _

theorem local_signed : Local sized (readSigned h) := by
  refine .ite (fun _ => ?_) fun _ => ?_
  · refine local_signedCode.bind fun _ => ?_
    refine (local_bits _).bind fun _ => ?_
    refine (Local.ofExcept _).bind fun _ => ?_
    exact .pure _
  · refine (local_scaled h).bind fun _ => ?_
    exact .pure _

theorem local_unsigned : Local sized (readUnsigned h) := by
  refine .ite (fun _ => ?_) fun _ => ?_
  · refine local_unsignedCode.bind fun _ => ?_
    refine (local_bits _).bind fun _ => ?_
    refine (Local.ofExcept _).bind fun _ => ?_
    exact .pure _
  · refine (local_scaled h).bind fun _ => ?_
    exact .pure _

end Coefficient

/-! ### Mappings -/

namespace Mapping

variable (h : Header)

theorem local_pivots (depth n previous : Nat) : Local sized (readPivots depth n previous) := by
  induction n generalizing previous with
  | zero => exact .pure []
  | succ n ih =>
    refine (local_bits32 depth).bind fun _ => ?_
    refine (Local.ofExcept _).bind fun pivot => ?_
    refine (ih pivot).bind fun _ => ?_
    exact .pure _

theorem local_curvePivots : Local sized (readCurvePivots h) := by
  refine local_unsignedCode.bind fun _ => ?_
  refine .check fun _ => ?_
  exact local_pivots _ _ _

theorem local_polynomial : Local sized (readPolynomial h) := by
  have hsigned : Local sized (Coefficient.readSigned h) := Coefficient.local_signed h
  refine local_unsignedCode.bind fun order => ?_
  refine .check fun _ => ?_
  refine .ite (fun _ => local_flag.bind fun linear => .check fun _ => ?_) fun _ => ?_
  all_goals
    refine hsigned.bind fun c₀ => ?_
    refine hsigned.bind fun c₁ => ?_
    refine .bindIf (fun _ => hsigned) (fun _ => .pure 0) fun c₂ => ?_
    refine (Local.ofExcept _).bind fun _ => ?_
    exact .pure _

theorem local_row (present : Bool) : Local sized (readRow h present) :=
  .ite (fun _ => local_times (Coefficient.local_signed h) 7) fun _ => .pure _

theorem local_regression : Local sized (readRegression h) := by
  refine (local_bits32 2).bind fun _ => ?_
  refine .check fun _ => ?_
  refine (Coefficient.local_signed h).bind fun _ => ?_
  refine (local_row h _).bind fun _ => ?_
  refine (local_row h _).bind fun _ => ?_
  refine (local_row h _).bind fun _ => ?_
  refine (Local.ofExcept _).bind fun _ => ?_
  exact .pure _

theorem local_piece : Local sized (readPiece h) := by
  refine local_unsignedCode.bind fun method => ?_
  split
  · exact local_polynomial h
  · exact local_regression h
  · exact .throw

theorem local_pieces (pivots : List UInt16) : Local sized (readPieces h pivots) :=
  (local_list (local_piece h) _).bind fun _ => .pure _

theorem local_nlqMethod : Local sized (readNlqMethod h) := by
  refine (local_bits32 _).bind fun _ => ?_
  refine .check fun _ => ?_
  refine (local_bits32 _).bind fun _ => ?_
  refine (Local.ofExcept _).bind fun _ => ?_
  refine (local_bits32 _).bind fun _ => ?_
  refine (Local.ofExcept _).bind fun _ => ?_
  exact .pure _

theorem local_nlq : Local sized (readNlq h) := by
  have hunsigned : Local sized (Coefficient.readUnsigned h) := Coefficient.local_unsigned h
  refine (local_u16 _).bind fun _ => ?_
  refine hunsigned.bind fun _ => ?_
  refine hunsigned.bind fun _ => ?_
  refine hunsigned.bind fun _ => ?_
  exact .pure _

/-- **A mapping is read locally.** -/
theorem local_read (id : Nat) (usesNlq : Bool) : Local sized (read h id usesNlq) := by
  unfold read
  refine local_unsignedCode.bind fun colorSpace => ?_
  refine local_unsignedCode.bind fun chromaFormat => ?_
  refine (local_curvePivots h).bind fun p₀ => ?_
  refine (local_curvePivots h).bind fun p₁ => ?_
  refine (local_curvePivots h).bind fun p₂ => ?_
  refine .bindIf (fun _ => (local_nlqMethod h).map some) (fun _ => .pure none) fun method => ?_
  refine local_unsignedCode.bind fun codeX => ?_
  refine (Local.ofExcept _).bind fun partitionsX => ?_
  refine local_unsignedCode.bind fun codeY => ?_
  refine (Local.ofExcept _).bind fun partitionsY => ?_
  refine (local_pieces h p₀).bind fun c₀ => ?_
  refine (local_pieces h p₁).bind fun c₁ => ?_
  refine (local_pieces h p₂).bind fun c₂ => ?_
  exact .bindIf (fun _ => local_times (local_nlq h) 3) (fun _ => .pure _) fun _ => .pure _

end Mapping

/-! ### Color descriptions -/

/-- **A color description is read locally.** -/
theorem SourceColor.local_read (id sceneRefresh : UInt8) : Local sized (read id sceneRefresh) := by
  have hmatrix : Local sized (Reader.times 9 (Reader.i16 16)) := local_times (local_i16 16) 9
  refine hmatrix.bind fun _ => ?_
  refine (local_times (local_u32 32) 3).bind fun _ => ?_
  refine hmatrix.bind fun _ => ?_
  refine (local_u16 _).bind fun _ => ?_
  refine (local_u16 _).bind fun _ => ?_
  refine (local_u16 _).bind fun _ => ?_
  refine (local_u32 _).bind fun _ => ?_
  refine (local_u8 _).bind fun bitDepth => ?_
  refine .check fun _ => ?_
  refine (local_u8 _).bind fun _ => ?_
  refine (local_u8 _).bind fun _ => ?_
  refine (local_u8 _).bind fun _ => ?_
  refine (local_u16 _).bind fun _ => ?_
  refine (local_u16 _).bind fun _ => ?_
  refine (local_u16 _).bind fun _ => ?_
  exact .pure _

/-! ### Blocks -/

namespace Block

theorem local_readIf {α : Type} {item : BitParser α} (present : Bool) (hitem : Local sized item)
    (absent : α) : Local sized (readIf present item absent) :=
  .ite (fun _ => hitem) fun _ => .pure absent

theorem local_chromaticities : Local sized readChromaticities := by
  have hword : Local sized (Reader.i16 16) := local_i16 16
  refine hword.bind fun _ => ?_
  refine hword.bind fun _ => ?_
  refine hword.bind fun _ => ?_
  refine hword.bind fun _ => ?_
  refine hword.bind fun _ => ?_
  refine hword.bind fun _ => ?_
  refine hword.bind fun _ => ?_
  refine hword.bind fun _ => ?_
  exact .pure _

theorem local_level8 (length : Nat) : Local sized (readLevel8 length) := by
  have hword : Local sized (Reader.u16 12) := local_u16 12
  have hbytes : Local sized (Reader.times 6 (Reader.u8 8)) := local_times (local_u8 8) 6
  unfold readLevel8
  refine .check fun _ => ?_
  refine (local_u8 _).bind fun _ => ?_
  refine hword.bind fun _ => ?_
  refine hword.bind fun _ => ?_
  refine hword.bind fun _ => ?_
  refine hword.bind fun _ => ?_
  refine hword.bind fun _ => ?_
  refine hword.bind fun _ => ?_
  refine (local_readIf _ hword 0).bind fun _ => ?_
  refine (local_readIf _ hword 0).bind fun _ => ?_
  refine (local_readIf _ hbytes _).bind fun _ => ?_
  refine (local_readIf _ hbytes _).bind fun _ => ?_
  exact .pure _

theorem local_level11 : Local sized readLevel11 := by
  have hpair : Local sized (Reader.u8 2) := local_u8 2
  refine (local_u8 _).bind fun _ => ?_
  refine (local_u8 _).bind fun _ => ?_
  refine local_flag.bind fun _ => ?_
  refine (local_skip 3).bind fun _ => ?_
  refine hpair.bind fun _ => ?_
  refine hpair.bind fun _ => ?_
  refine hpair.bind fun _ => ?_
  refine hpair.bind fun _ => ?_
  refine hpair.bind fun _ => ?_
  refine hpair.bind fun _ => ?_
  exact .pure _

theorem local_first (level : UInt8) : Local sized (readFirst level) := by
  have hbyte : Local sized (Reader.u8 8) := local_u8 8
  have h12 : Local sized (Reader.u16 12) := local_u16 12
  have h13 : Local sized (Reader.u16 13) := local_u16 13
  have h16 : Local sized (Reader.u16 16) := local_u16 16
  unfold readFirst
  split
  · refine (Local.map ?_ level1).map some
    refine h12.bind fun _ => ?_
    refine h12.bind fun _ => ?_
    refine h12.bind fun _ => ?_
    exact .pure _
  · refine (Local.map ?_ level2).map some
    refine h12.bind fun _ => ?_
    refine h12.bind fun _ => ?_
    refine h12.bind fun _ => ?_
    refine h12.bind fun _ => ?_
    refine h12.bind fun _ => ?_
    refine h12.bind fun _ => ?_
    refine (local_i16 13).bind fun _ => ?_
    exact .pure _
  · refine (Local.map ?_ level4).map some
    refine h12.bind fun _ => ?_
    refine h12.bind fun _ => ?_
    exact .pure _
  · refine (Local.map ?_ level5).map some
    refine h13.bind fun _ => ?_
    refine h13.bind fun _ => ?_
    refine h13.bind fun _ => ?_
    refine h13.bind fun _ => ?_
    exact .pure _
  · refine (Local.map ?_ level6).map some
    refine h16.bind fun _ => ?_
    refine h16.bind fun _ => ?_
    refine h16.bind fun _ => ?_
    refine h16.bind fun _ => ?_
    exact .pure _
  · refine (Local.map ?_ level255).map some
    refine hbyte.bind fun _ => ?_
    refine hbyte.bind fun _ => ?_
    refine (local_times hbyte 4).bind fun _ => ?_
    exact .pure _
  · exact .pure none

theorem local_second (level : UInt8) (length : Nat) : Local sized (readSecond level length) := by
  have hbyte : Local sized (Reader.u8 8) := local_u8 8
  have h12 : Local sized (Reader.u16 12) := local_u16 12
  unfold readSecond
  split
  · refine (Local.map ?_ level3).map some
    refine h12.bind fun _ => ?_
    refine h12.bind fun _ => ?_
    refine h12.bind fun _ => ?_
    exact .pure _
  · exact ((local_level8 length).map level8).map some
  · refine (Local.map ?_ level9).map some
    refine hbyte.bind fun _ => ?_
    refine (local_readIf _ local_chromaticities _).bind fun _ => ?_
    exact .pure _
  · refine (Local.map ?_ level10).map some
    refine hbyte.bind fun _ => ?_
    refine h12.bind fun _ => ?_
    refine h12.bind fun _ => ?_
    refine hbyte.bind fun _ => ?_
    refine (local_readIf _ local_chromaticities _).bind fun _ => ?_
    exact .pure _
  · exact (local_level11.map level11).map some
  · refine (Local.map ?_ level254).map some
    refine hbyte.bind fun _ => ?_
    refine hbyte.bind fun _ => ?_
    exact .pure _
  · exact .pure none

/-- **The body of a block is read locally**, of whatever level and length. -/
theorem local_body (group : BlockGroup) (level : UInt8) (length : Nat) :
    Local sized (readBody group level length) := by
  cases group with
  | first => exact local_first level
  | second => exact local_second level length

end Block

/-! ### Reading with notes -/

section Decoder

variable {α : Type} {p : BitParser α}

/-- A local read is local as a part of a decoder. -/
theorem Bits.Local.lift (h : Local sized p) : Local sized (liftM p : Decoder α) := by
  intro s a s' hsound hrun
  cases hp : p s.reader with
  | error fault r =>
    rw [Decoder.lift_error hp] at hrun
    cases hrun
  | ok a' r₁ =>
    rw [Decoder.lift_ok hp] at hrun
    cases hrun
    obtain ⟨hsound', bits, hunread, hsame⟩ := h s.reader a r₁ hsound hp
    refine ⟨hsound', bits, hunread, fun rest hlength r hr hunreadr => ?_⟩
    obtain ⟨r', hok, hr', hrest⟩ := hsame rest hlength r hr hunreadr
    exact ⟨r', Decoder.lift_ok hok, hr', hrest⟩

/-- Reporting a note is local. -/
theorem Decoder.local_report (note : Note) : Local sized (Decoder.report note) := by
  intro s a s' hsound hrun
  cases hrun
  exact ⟨hsound, [], rfl, fun rest _ r hr hunread => ⟨r, rfl, hr, hunread⟩⟩

/-- Looking at the number of bits that are left is local among strings of one length. -/
theorem Decoder.local_bitsLeft : Local True Decoder.bitsLeft := by
  intro s n s' hsound hrun
  cases hrun
  refine ⟨hsound, [], rfl, fun rest hlength r hr hunread => ⟨r, ?_, hr, hunread⟩⟩
  have hs : s.reader.Sound := hsound
  have hsame : r.unread.length = s.reader.unread.length := by
    rw [hunread]
    exact hlength trivial
  have hleft : r.bitsLeft = s.reader.bitsLeft := by
    rw [hr.toLoaded.bitsLeft_eq, hs.toLoaded.bitsLeft_eq, hsame]
  exact congrArg (EStateM.Result.ok · { s with reader := r }) hleft

end Decoder

/-! ### Groups -/

namespace BlockGroup

variable (group : BlockGroup) (compressed : Bool) (strictness : Strictness) (kept : BlockSet)

theorem local_passesOver (level : UInt8) :
    Local sized (passesOver compressed strictness kept level) := by
  unfold passesOver
  refine .ite (fun _ => .ite (fun _ => ?_) fun _ => ?_) fun _ => ?_
  · refine (Decoder.local_report _).bind fun _ => ?_
    refine .check fun _ => ?_
    exact .pure true
  all_goals
    exact .ite (fun _ => (Decoder.local_report _).bind fun _ => .pure true) fun _ => .pure false

theorem local_padded (level : UInt8) (length : Nat) :
    Local True (readPadded group level length) := by
  refine (Local.ofExcept _).bind fun size => .measured (f := fun before block after => do
    let taken ← Checked.sub before after
    if size < taken then
      throw (.malformed .blockOverrun)
    let padding ← Checked.sub size taken
    Reader.skip (← Checked.within 32 padding)
    return block) (Block.local_body group level length) fun before block after => ?_
  refine (Local.ofExcept _).bind fun taken => ?_
  refine .check fun _ => ?_
  refine (Local.ofExcept _).bind fun padding => ?_
  refine (Local.ofExcept _).bind fun width => ?_
  refine (local_skip width).bind fun _ => ?_
  exact .pure block

theorem local_block : Local True (readBlock group compressed strictness kept) := by
  refine local_unsignedCode.lift.bind fun length => ?_
  refine (local_u8 8).lift.bind fun level => ?_
  refine (Local.ofExcept _).bind fun size => ?_
  refine Decoder.local_bitsLeft.bind fun left => ?_
  refine .check fun _ => ?_
  refine (local_passesOver compressed strictness kept level).bind fun passed =>
    .ite (fun _ => ?_) fun _ => ?_
  · refine (Local.ofExcept _).bind fun width => ?_
    refine (local_skip width).lift.bind fun _ => ?_
    exact .pure kept
  · refine (local_padded group level length).lift.bind fun block => ?_
    cases block with
    | some block => exact .ofExcept _
    | none => exact (Decoder.local_report _).bind fun _ => .pure kept

theorem local_blocks (n : Nat) :
    Local True (readBlocks group compressed strictness n kept) := by
  induction n generalizing kept with
  | zero => exact .pure kept
  | succ n ih => exact (local_block group compressed strictness kept).bind ih

/-- **A group of blocks is read locally** among RPUs of one length. -/
theorem local_read : Local True (read group compressed strictness kept) := by
  refine local_unsignedCode.lift.bind fun count => ?_
  refine local_realign.lift.bind fun _ => ?_
  exact local_blocks group compressed strictness kept count

end BlockGroup

end DolbyVision
