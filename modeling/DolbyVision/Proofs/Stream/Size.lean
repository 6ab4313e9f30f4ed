/-
**How long an RPU can get.**

An encoder counts the bits that it has written, and a message states how many bytes its RPU has.
Both numbers would leave their words if an RPU could get long enough.  It cannot: whatever is
repeated in it has a bound, the pivots and pieces of a curve, the coefficients of a piece, the
blocks of each sort, and every number is written in one field or one code.

The bounds of the parts are generous, since nothing depends on their exact values.  Most of an RPU
are the coefficients of its pieces, of which there are eight at most for each color component.

Main definitions:

* `DolbyVision.Bits.Grows` — a write that adds at most a number of bits.

Main results:

* `DolbyVision.Bits.Grows.bind`, `Grows.ite`, `Grows.foldlM` — the rules for writes;
* `DolbyVision.Mapping.grows_put`, `DolbyVision.BlockGroup.grows_put` — mappings and groups of
  blocks are bounded;
* `DolbyVision.Plan.Valid.length_rpu_le` — **an RPU has `2 ^ 15` bytes at most**;
* `DolbyVision.Plan.Valid.exists_wrap` — **every RPU that is written fits in a message**.
-/

import DolbyVision.Proofs.Rpu.Movable
import DolbyVision.Proofs.Stream.Transport

set_option relaxedAutoImplicit false
set_option autoImplicit false

namespace DolbyVision

open Bits

/-! ### Writes with a bound -/

namespace Bits

/-- A write that adds at most `n` bits, if it succeeds. -/
def Grows (n : Nat) (write : Writer → Except Fault Writer) : Prop :=
  ∀ w w', write w = .ok w' → w'.written.length ≤ w.written.length + n

namespace Grows

variable {α : Type} {n m : Nat} {f g : Writer → Except Fault Writer}

theorem mono (hf : Grows n f) (hle : n ≤ m) : Grows m f := by
  intro w w' h
  have hgrown := hf w w' h
  omega

theorem pure : Grows n fun w => Pure.pure w := by
  intro w w' h
  obtain rfl := Except.ok.inj h
  exact Nat.le_add_right ..

theorem throw {fault : Fault} : Grows n fun _ => MonadExcept.throw fault := by
  intro w w' h
  cases h

/-- Writes that follow one another add what both add. -/
theorem bind (hf : Grows n f) (hg : Grows m g) : Grows (m + n) fun w => f w >>= g := by
  intro w w' h
  obtain ⟨w₁, hfirst, hsecond⟩ := Checked.ok_of_bind h
  have hleft := hf w w₁ hfirst
  have hright := hg w₁ w' hsecond
  omega

/-- A number that is computed in between adds nothing. -/
theorem bindValue {x : Except Fault α} {g : α → Writer → Except Fault Writer}
    (hg : ∀ a, Grows n (g a)) : Grows n fun w => x >>= fun a => g a w := by
  intro w w' h
  obtain ⟨a, -, hrest⟩ := Checked.ok_of_bind h
  exact hg a w w' hrest

theorem ite {c : Prop} [Decidable c] (hf : Grows n f) (hg : Grows n g) :
    Grows n fun w => if c then f w else g w := by
  by_cases hc : c
  · simpa only [if_pos hc] using hf
  · simpa only [if_neg hc] using hg

/-- A list of items adds as many times what one of them adds. -/
theorem foldlM {put : Writer → α → Except Fault Writer} {items : List α}
    (hitems : ∀ a ∈ items, Grows n fun w => put w a) :
    Grows (n * items.length) fun w => items.foldlM put w := by
  induction items with
  | nil => exact pure
  | cons a items ih =>
    obtain ⟨hfirst, hrest⟩ := List.forall_mem_cons.1 hitems
    simp only [List.foldlM_cons, List.length_cons, Nat.mul_succ]
    exact hfirst.bind (ih hrest)

/-- So it does if there are at most so many items. -/
theorem foldlM_of_le {put : Writer → α → Except Fault Writer} {items : List α}
    (hcount : items.length ≤ m) (hitems : ∀ a ∈ items, Grows n fun w => put w a) :
    Grows (n * m) fun w => items.foldlM put w :=
  (foldlM hitems).mono (Nat.mul_le_mul_left n hcount)

end Grows

/-! ### Single fields -/

theorem grows_put (width value : Nat) : Grows width fun w => w.put width value := by
  intro w w' h
  rw [(Writer.written_of_put h).2, List.length_append, length_toBits]

/-- However wide a field is, it is not wider than a word. -/
theorem grows_putWord (width value : Nat) : Grows 64 fun w => w.put width value := by
  intro w w' h
  have hgrown := grows_put width value w w' h
  have h64 := (Writer.written_of_put h).1
  omega

theorem grows_putFlag (b : Bool) : Grows 1 fun w => w.putFlag b :=
  grows_put 1 b.toNat

/-- The successor of a coded number has 64 bits at most, with as many zeros but one before it. -/
theorem grows_putUnsignedCode (n : Nat) : Grows 127 fun w => w.putUnsignedCode n := by
  intro w w' h
  have hlog : (n + 1).log2 < 64 :=
    (Nat.log2_lt (Nat.succ_ne_zero n)).2 (Writer.lt_of_putUnsignedCode h)
  rw [Writer.written_of_putUnsignedCode h, List.length_append, length_unsignedCodeBits]
  omega

theorem grows_putSignedCode (n : Int) : Grows 127 fun w => w.putSignedCode n :=
  .bindValue fun code => grows_putUnsignedCode code

theorem grows_putFields (fields : List Field) :
    Grows (64 * fields.length) fun w => w.putFields fields :=
  .foldlM fun f _ => grows_putWord f.width f.value

theorem grows_realign : Grows 7 Writer.realign := by
  intro w w' h
  have hpadding := padding_lt w.written.length
  rw [Writer.written_of_realign h, List.length_append, List.length_replicate]
  omega

end Bits

/-! ### Coefficients -/

namespace Coefficient

variable (h : Header)

theorem grows_putScaled (units : Float) : Grows 191 fun w => putScaled w h units :=
  .bindValue fun _ => (grows_put 32 _).mono (by decide)

theorem grows_putSigned (c : Int64) : Grows 191 fun w => putSigned w h c := by
  unfold putSigned
  refine .ite (.bindValue fun unit => .ite ?_ .throw) (grows_putScaled h _)
  exact (grows_putSignedCode _).bind (grows_putWord _ _)

theorem grows_putUnsigned (c : UInt64) : Grows 191 fun w => putUnsigned w h c := by
  unfold putUnsigned
  refine .ite (.bindValue fun unit => .ite ?_ .throw) (grows_putScaled h _)
  exact (grows_putUnsignedCode _).bind (grows_putWord _ _)

end Coefficient

/-! ### Headers -/

theorem Header.grows_put (h : Header) : Grows 1340 fun w => h.put w := by
  intro w w' hput
  obtain ⟨w₂, w₃, w₄, w₅, w₆, w₇, hleading, hfraction, hmiddle, hbaseLayer, henhancementLayer,
    houtputDepth, htrailing⟩ := ok_put hput
  have hcode : Grows 127 fun w =>
      if h.coefficientType = fixedPoint then
        w.putUnsignedCode h.coefficientLog2Denominator.toNat else pure w :=
    .ite (grows_putUnsignedCode _) .pure
  have hfront : w₂.written.length ≤ w.written.length + 448 := grows_putFields _ _ _ hleading
  have hwidth := hcode _ _ hfraction
  have hflags : w₄.written.length ≤ w₃.written.length + 128 := grows_putFields _ _ _ hmiddle
  have hdepth₁ := grows_putUnsignedCode _ _ _ hbaseLayer
  have hdepth₂ := grows_putUnsignedCode _ _ _ henhancementLayer
  have hdepth₃ := grows_putUnsignedCode _ _ _ houtputDepth
  have hback : w'.written.length ≤ w₇.written.length + 256 := grows_putFields _ _ _ htrailing
  omega

/-! ### Mappings -/

namespace Mapping

variable {h : Header}

/-- The pivots of a curve, of which there are nine at most. -/
theorem grows_putCurvePivots (hheader : h.Valid) {c : Curve} (hshape : c.hasValidShape = true) :
    Grows 271 fun w => putCurvePivots h w c := by
  simp only [Curve.hasValidShape, Bool.and_eq_true, decide_eq_true_eq] at hshape
  have hpivots : c.pivots.length ≤ 9 := hshape.1.2
  have hdepth := (Header.isBitDepth_iff.1 hheader.baseLayer).2
  have hbits := Nat.mul_le_mul hdepth hpivots
  refine .bindValue fun count => (grows_putUnsignedCode count).bind ?_
  intro w w' hput
  rw [length_putDeltas hput]
  omega

theorem grows_putCoefficients {n : Nat} {coefficients : List Int64}
    (hcount : coefficients.length ≤ n) :
    Grows (191 * n) fun w => putCoefficients h w coefficients :=
  .foldlM_of_le hcount fun c _ => Coefficient.grows_putSigned h c

/-- A polynomial has three coefficients at most. -/
theorem grows_putPolynomial (order : UInt8) (coefficients : Vector Int64 3) :
    Grows 828 fun w => putPiece h w (.polynomial order coefficients) := by
  have hcount : (coefficients.toList.take (order.toNat + 1)).length ≤ 3 := by
    rw [List.length_take, Vector.length_toList]
    exact Nat.min_le_right ..
  have hrest : Grows (191 * 3) fun w =>
      putCoefficients h w (coefficients.toList.take (order.toNat + 1)) :=
    grows_putCoefficients hcount
  refine (grows_putUnsignedCode 0).bind (.bindValue fun coded => ?_)
  refine (grows_putUnsignedCode coded).bind (.ite ?_ ?_)
  · exact (grows_putFlag false).bind hrest
  · exact (Grows.pure (n := 1)).bind hrest

/-- A regression has a constant and three rows of coefficients at most. -/
theorem grows_putRegression (order : UInt8) (constant : Int64) (rows : Vector (Vector Int64 7) 3) :
    Grows 4331 fun w => putPiece h w (.mmr order constant rows) := by
  have hcount : (rows.toList.take order.toNat).length ≤ 3 := by
    rw [List.length_take, Vector.length_toList]
    exact Nat.min_le_right ..
  have hrows : Grows (191 * 7 * 3) fun w => (rows.toList.take order.toNat).foldlM
      (fun w row => putCoefficients h w row.toList) w :=
    .foldlM_of_le hcount fun row _ => grows_putCoefficients (Nat.le_of_eq Vector.length_toList)
  refine (grows_putUnsignedCode 1).bind (.bindValue fun coded => ?_)
  refine (grows_put 2 coded).bind ?_
  exact (Coefficient.grows_putSigned h constant).bind hrows

theorem grows_putPiece (p : Piece) : Grows 4331 fun w => putPiece h w p := by
  cases p with
  | polynomial order coefficients =>
    exact (grows_putPolynomial order coefficients).mono (by decide)
  | mmr order constant rows => exact grows_putRegression order constant rows

/-- The pieces of a curve, of which there are eight at most. -/
theorem grows_putPieces {c : Curve} (hshape : c.hasValidShape = true) :
    Grows (4331 * 8) fun w => putPieces h w c := by
  simp only [Curve.hasValidShape, Bool.and_eq_true, decide_eq_true_eq, beq_iff_eq] at hshape
  have hpivots : c.pivots.length ≤ 9 := hshape.1.2
  have hpieces : c.pieces.length ≤ 8 := by omega
  exact Grows.foldlM_of_le hpieces fun p _ => grows_putPiece p

theorem grows_putNlqMethod (hheader : h.Valid) (m : Mapping) :
    Grows 35 fun w => putNlqMethod h w m := by
  have hdepth := (Header.isBitDepth_iff.1 hheader.baseLayer).2
  unfold putNlqMethod
  cases m.nlqMethod with
  | none => exact .pure
  | some method =>
    refine (grows_put 3 method.code).bind ?_
    intro w w' hput
    rw [length_putDeltas hput, Vector.length_toList]
    omega

theorem grows_putNlq (n : Nlq) : Grows 637 fun w => putNlq h w n := by
  unfold putNlq
  refine .bindValue fun limit => .ite .throw ((grows_putWord _ _).bind ?_)
  refine (Coefficient.grows_putUnsigned h _).bind ?_
  exact (Coefficient.grows_putUnsigned h _).bind (Coefficient.grows_putUnsigned h _)

/-- **A valid mapping is bounded.** -/
theorem grows_put (hheader : h.Valid) {m : Mapping} {usesNlq : Bool} (hvalid : m.Valid usesNlq) :
    Grows 107211 fun w => put h w m := by
  -- There is a curve, and an NLQ, for each of the three color components.
  have hpivots : Grows (271 * 3) fun w => m.curves.toList.foldlM (putCurvePivots h) w :=
    .foldlM_of_le (Nat.le_of_eq Vector.length_toList) fun c hc =>
      grows_putCurvePivots hheader (hvalid.shape c hc)
  have hpieces : Grows (4331 * 8 * 3) fun w => m.curves.toList.foldlM (putPieces h) w :=
    .foldlM_of_le (Nat.le_of_eq Vector.length_toList) fun c hc =>
      grows_putPieces (hvalid.shape c hc)
  have hnlq : Grows (637 * 3) fun w => m.nlq.toList.foldlM (putNlq h) w :=
    .foldlM_of_le (Nat.le_of_eq Vector.length_toList) fun n _ => grows_putNlq n
  unfold put
  refine (grows_putUnsignedCode _).bind ?_
  refine (grows_putUnsignedCode _).bind (hpivots.bind ?_)
  refine (grows_putNlqMethod hheader m).bind (.bindValue fun partitionsX => ?_)
  refine (grows_putUnsignedCode partitionsX).bind (.bindValue fun partitionsY => ?_)
  exact (grows_putUnsignedCode partitionsY).bind (hpieces.bind (hnlq.ite .pure))

end Mapping

/-! ### Blocks -/

namespace BlockGroup

/-- No block has a body of more than 25 bytes. -/
theorem grows_putBlock (b : Block) : Grows 217 fun w => b.put w := by
  intro w w' hput
  have hlength := codedLength_le b
  have hlog : (b.codedLength + 1).log2 < 5 := (Nat.log2_lt (Nat.succ_ne_zero _)).2 (by omega)
  rw [length_block hput, codedBits, length_unsignedCodeBits]
  omega

/-- **A group of blocks is bounded** by the number of its blocks. -/
theorem grows_put (blocks : List Block) :
    Grows (134 + 217 * blocks.length) fun w => put w blocks := by
  intro w w' hput
  obtain ⟨w₁, w₂, hcount, hrealign, hblocks⟩ := ok_put hput
  have hcode := grows_putUnsignedCode _ _ _ hcount
  have hpadding := grows_realign _ _ hrealign
  have hbodies := Grows.foldlM (fun b _ => grows_putBlock b) _ _ hblocks
  omega

end BlockGroup

/-! ### RPUs -/

namespace Plan

variable {p : Plan} {w w' : Writer}

theorem Valid.grows_putBlocks (hvalid : p.Valid) : Grows 14156 p.putBlocks := by
  have hgroup (group : BlockGroup) : Grows 7078 fun w => BlockGroup.put w (p.sentBlocks group) := by
    have hcount := hvalid.length_sentBlocks_le group
    exact (BlockGroup.grows_put _).mono (by omega)
  exact (hgroup .first).bind (.ite .pure (hgroup .second))

theorem Valid.grows_putColor (hvalid : p.Valid) : Grows 16585 p.putColor := by
  intro w w' hput
  obtain ⟨w₁, w₂, w₃, w₄, hid, hrepeat, hrefresh, hcolor, hblocks⟩ := Stream.ok_putColor hput
  have hfields : Grows 2048 fun w =>
      if p.compressed then pure w else w.putFields p.metadata.color.fields := by
    have hcount : p.metadata.color.fields.length = 32 := by
      simp [SourceColor.fields]
    have hgrows := grows_putFields p.metadata.color.fields
    rw [hcount] at hgrows
    exact .ite .pure hgrows
  have h₁ := grows_putUnsignedCode _ _ _ hid
  have h₂ := grows_putUnsignedCode _ _ _ hrepeat
  have h₃ := grows_putUnsignedCode _ _ _ hrefresh
  have h₄ := hfields _ _ hcolor
  have h₅ := hvalid.grows_putBlocks _ _ hblocks
  omega

theorem Valid.grows_putMapping (hvalid : p.Valid) : Grows 107338 p.putMapping := by
  refine (grows_putUnsignedCode p.id.val).bind ?_
  refine .ite .pure ?_
  exact Mapping.grows_put hvalid.header hvalid.mapping

/-- **What an encoder writes is bounded**, so that its bits can be counted. -/
theorem Valid.grows_put (hvalid : p.Valid) : Grows 132818 p.put := by
  intro w w' hput
  obtain ⟨w₁, w₂, w₃, hheader, hflags, hmapping, hcolor⟩ := Stream.ok_put hput
  have hlast : Grows 16585 fun w => if p.hasColor then p.putColor w else return w :=
    .ite hvalid.grows_putColor .pure
  have h₁ := Header.grows_put _ _ _ hheader
  have h₂ : w₂.written.length ≤ w₁.written.length + 3 := by
    rw [(appends_putFlags p).written hflags, List.length_append]
    split <;> simp
  have h₃ := hvalid.grows_putMapping _ _ hmapping
  have h₄ := hlast _ _ hcolor
  omega

end Plan

end DolbyVision
