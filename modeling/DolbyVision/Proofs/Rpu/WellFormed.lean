/-
**Data that is kept is well formed.**

What a stream keeps gets there in one of two ways: a decoder has read it, or an encoder has checked
and written it.  Either way a mapping belongs to its slot, and its curves have pivots in order and
pieces between them; a color description has an identifier and a bit depth that there are; blocks
fit in their set and stand with those of their sort.

Main definitions:

* `DolbyVision.Curve.IsWellFormed`, `DolbyVision.Mapping.IsWellFormed` — what is known of a mapping
  in a slot;
* `DolbyVision.SourceColor.IsWellFormed` — what is known of a color description;
* `DolbyVision.BlockSet.IsWellFormed` — what is known of a set of blocks.

Main results:

* `DolbyVision.Mapping.gives_read` — **a mapping that was read is well formed**;
* `DolbyVision.Mapping.wellFormed_of_put` — **a mapping that was written is well formed**;
* `DolbyVision.BlockGroup.gives_read` — **blocks that are read stay well formed**.
-/

import DolbyVision.Proofs.Bits.Values
import DolbyVision.Proofs.Rpu.BlockGroup
import DolbyVision.Proofs.Rpu.Mapping
import DolbyVision.Rpu.SourceColor

set_option relaxedAutoImplicit false
set_option autoImplicit false

namespace DolbyVision

open Bits

/-! ### Headers -/

/-- A header has the type that was read before it. -/
theorem Header.gives_read (rpuType : UInt8) (strictness : Strictness) :
    Run.Gives (read rpuType strictness) fun h => h.rpuType = rpuType := by
  refine .after fun format => .after fun profile => .after fun level => ?_
  refine .after fun info => .check fun _ => .after fun filter => ?_
  refine .after fun type => .after fun fraction => .after fun idc => ?_
  refine .after fun fullRange => .check fun _ => ?_
  refine .after fun base => .after fun enhancement => .after fun output => ?_
  refine .check fun _ => .after fun resampling => .after fun reserved => ?_
  refine .check fun _ => .after fun filter => .after fun disable => ?_
  refine .after fun base => .after fun enhancement => .after fun output => ?_
  exact .pure rfl

/-! ### Well-formed mappings -/

/-- The largest order of a piece of a given kind. -/
def Piece.maxOrder : Piece → UInt8
  | polynomial _ _ => 2
  | mmr _ _ _ => 3

/-- A curve with 2 to 9 pivots in order, one piece fewer, and pieces whose order is one of their
kind. -/
structure Curve.IsWellFormed (c : Curve) : Prop where
  two_le : 2 ≤ c.pivots.length
  le_nine : c.pivots.length ≤ 9
  ordered : c.pivots.Pairwise (· ≤ ·)
  pieces : c.pieces.length + 1 = c.pivots.length
  orders : ∀ piece ∈ c.pieces, 1 ≤ piece.order ∧ piece.order ≤ piece.maxOrder

/-- A mapping that belongs to a slot, with three well-formed curves and at least one partition in
either direction. -/
structure Mapping.IsWellFormed (id : Nat) (m : Mapping) : Prop where
  id : m.id.toNat = id
  curves : ∀ c ∈ m.curves.toList, c.IsWellFormed
  partitionsX : 1 ≤ m.partitionsX
  partitionsY : 1 ≤ m.partitionsY

namespace Mapping

/-- An order that passes its check is one of its kind. -/
theorem order_of_hasValidOrder {piece : Piece} (h : piece.hasValidOrder = true) :
    1 ≤ piece.order ∧ piece.order ≤ piece.maxOrder := by
  cases piece with
  | polynomial order c =>
    have horder : order = 1 ∨ order = 2 := by
      simpa only [Piece.hasValidOrder, Bool.or_eq_true, beq_iff_eq] using h
    have hbounds : 1 ≤ order ∧ order ≤ 2 := by rcases horder with rfl | rfl <;> decide
    exact hbounds
  | mmr order constant rows =>
    have hbounds : 1 ≤ order ∧ order ≤ 3 := by
      simpa only [Piece.hasValidOrder, Bool.and_eq_true, decide_eq_true_eq] using h
    exact hbounds

/-! ### Mappings that are read -/

/-- Pivots come in order, and none is below the one from which they are counted. -/
theorem gives_pivots (depth n previous : Nat) :
    Run.Gives (readPivots depth n previous) fun pivots =>
      pivots.length = n ∧ pivots.Pairwise (· ≤ ·) ∧
        ∀ pivot ∈ pivots, min previous 0xffff ≤ pivot.toNat := by
  induction n generalizing previous with
  | zero => exact .pure ⟨rfl, List.Pairwise.nil, fun _ hmem => absurd hmem List.not_mem_nil⟩
  | succ n ih =>
    refine .after fun delta => .bind (.ofExcept fun pivot hpivot => hpivot) fun pivot hpivot => ?_
    refine .bind (ih pivot) fun pivots hpivots => .pure ?_
    obtain ⟨hlength, hordered, hlow⟩ := hpivots
    have hle : previous ≤ pivot := by
      obtain ⟨-, rfl⟩ := Checked.within_eq_ok hpivot
      exact Nat.le_add_right previous delta
    have hword : (UInt16.ofNat (min pivot 0xffff)).toNat = min pivot 0xffff := by
      rw [UInt16.toNat_ofNat']
      omega
    -- A pivot may have been cut off at the largest word, and so are those behind it.
    refine ⟨by rw [List.length_cons, hlength], List.pairwise_cons.2 ⟨?_, hordered⟩, ?_⟩
    · intro next hnext
      rw [UInt16.le_iff_toNat_le, hword]
      exact hlow next hnext
    · intro next hnext
      rcases List.mem_cons.1 hnext with rfl | hnext
      · rw [hword]
        omega
      · exact le_trans (by omega) (hlow next hnext)

/-- The pivots of a curve are 2 to 9. -/
theorem gives_curvePivots (h : Header) :
    Run.Gives (readCurvePivots h) fun pivots =>
      2 ≤ pivots.length ∧ pivots.length ≤ 9 ∧ pivots.Pairwise (· ≤ ·) := by
  refine .after fun count => .check fun hcount => ?_
  refine (gives_pivots _ _ _).mono fun pivots hpivots => ?_
  obtain ⟨hlength, hordered, -⟩ := hpivots
  unfold maxPivots at hcount
  exact ⟨by omega, by omega, hordered⟩

theorem gives_polynomial (h : Header) :
    Run.Gives (readPolynomial h) fun piece => piece.hasValidOrder = true := by
  refine .after fun order => .check fun horder => ?_
  have hvalid {n : Nat} (hn : Checked.add 8 order 1 = .ok n) (c : Vector Int64 3) :
      (Piece.polynomial (UInt8.ofNat n) c).hasValidOrder = true := by
    obtain ⟨-, rfl⟩ := Checked.within_eq_ok hn
    have hcases : order = 0 ∨ order = 1 := by omega
    rcases hcases with rfl | rfl <;> rfl
  refine .ite (fun _ => .after fun linear => .check fun _ => ?_) fun _ => ?_
  all_goals
    refine .after fun c₀ => .after fun c₁ => .afterIf fun c₂ => ?_
    exact .bind (.ofExcept fun _ hn => hn) fun n hn => .pure (hvalid hn _)

theorem gives_regression (h : Header) :
    Run.Gives (readRegression h) fun piece => piece.hasValidOrder = true := by
  refine .after fun order => .check fun horder => .after fun constant => ?_
  refine .after fun r₀ => .after fun r₁ => .after fun r₂ => ?_
  refine .bind (.ofExcept fun _ hn => hn) fun n hn => ?_
  refine .pure ?_
  obtain ⟨-, rfl⟩ := Checked.within_eq_ok hn
  have hcases : order = 0 ∨ order = 1 ∨ order = 2 := by omega
  rcases hcases with rfl | rfl | rfl <;> rfl

theorem gives_piece (h : Header) :
    Run.Gives (readPiece h) fun piece => piece.hasValidOrder = true := by
  refine .after fun method => ?_
  split
  · exact gives_polynomial h
  · exact gives_regression h
  · exact .throw

/-- The pieces between pivots are as many as there are gaps between them. -/
theorem gives_pieces (h : Header) {pivots : List UInt16} (htwo : 2 ≤ pivots.length)
    (hnine : pivots.length ≤ 9) (hordered : pivots.Pairwise (· ≤ ·)) :
    Run.Gives (readPieces h pivots) Curve.IsWellFormed := by
  refine .bind (gives_list (gives_piece h) _) fun pieces hpieces => .pure ?_
  refine ⟨htwo, hnine, hordered, ?_, fun piece hpiece =>
    order_of_hasValidOrder (hpieces.2 piece hpiece)⟩
  change pieces.length + 1 = pivots.length
  omega

/-- One more than a number that was read is not zero. -/
theorem partitions_pos {code partitions : Nat} (h : Checked.add 32 code 1 = .ok partitions) :
    1 ≤ UInt32.ofNat partitions := by
  obtain ⟨hlt, rfl⟩ := Checked.within_eq_ok h
  rw [Nat.one_shiftLeft] at hlt
  rw [UInt32.le_iff_toNat_le, UInt32.toNat_ofNat']
  have hone : (1 : UInt32).toNat = 1 := rfl
  omega

/-- **A mapping that was read is well formed.** -/
theorem gives_read (h : Header) {id : Nat} (hid : id ≤ maxId) (usesNlq : Bool) :
    Run.Gives (read h id usesNlq) (IsWellFormed id) := by
  unfold read
  refine .after fun colorSpace => .after fun chromaFormat => ?_
  refine .bind (gives_curvePivots h) fun p₀ h₀ => ?_
  refine .bind (gives_curvePivots h) fun p₁ h₁ => ?_
  refine .bind (gives_curvePivots h) fun p₂ h₂ => ?_
  refine .afterIf fun method => ?_
  refine .after fun codeX => .bind (.ofExcept fun _ hx => hx) fun partitionsX hx => ?_
  refine .after fun codeY => .bind (.ofExcept fun _ hy => hy) fun partitionsY hy => ?_
  refine .bind (gives_pieces h h₀.1 h₀.2.1 h₀.2.2) fun c₀ hc₀ => ?_
  refine .bind (gives_pieces h h₁.1 h₁.2.1 h₁.2.2) fun c₁ hc₁ => ?_
  refine .bind (gives_pieces h h₂.1 h₂.2.1 h₂.2.2) fun c₂ hc₂ => ?_
  refine .afterIf fun nlq => ?_
  refine .pure ?_
  refine ⟨?_, ?_, partitions_pos hx, partitions_pos hy⟩
  · unfold maxId at hid
    rw [UInt8.toNat_ofNat']
    omega
  · intro c hc
    rw [toList_three] at hc
    rcases List.mem_cons.1 hc with rfl | hc
    · exact hc₀
    rcases List.mem_cons.1 hc with rfl | hc
    · exact hc₁
    · rw [List.mem_singleton.1 hc]
      exact hc₂

/-! ### Mappings that are written -/

variable {h : Header} {w w' : Writer} {m : Mapping}

/-- Pivots that could be written are in order. -/
theorem ordered_of_putDeltas {width : Nat} {previous : UInt16} {pivots : List UInt16}
    (hput : putDeltas w width previous pivots = .ok w') :
    (previous :: pivots).Pairwise (· ≤ ·) := by
  induction pivots generalizing w previous with
  | nil => exact List.pairwise_singleton _ _
  | cons pivot pivots ih =>
    obtain ⟨hle, -, w₁, -, hrest⟩ := putDeltas_cons hput
    have hordered := ih hrest
    refine List.pairwise_cons.2 ⟨?_, hordered⟩
    intro next hnext
    rcases List.mem_cons.1 hnext with rfl | hnext
    · exact UInt16.le_iff_toNat_le.2 hle
    · exact UInt16.le_trans (UInt16.le_iff_toNat_le.2 hle)
        ((List.pairwise_cons.1 hordered).1 next hnext)

theorem ordered_of_putCurvePivots {c : Curve} (hput : putCurvePivots h w c = .ok w') :
    c.pivots.Pairwise (· ≤ ·) := by
  obtain ⟨count, -, hput⟩ := Checked.ok_of_bind hput
  obtain ⟨w₁, -, hdeltas⟩ := Checked.ok_of_bind hput
  exact (List.pairwise_cons.1 (ordered_of_putDeltas hdeltas)).2

/-- A valid curve is well formed once its pivots could be written. -/
theorem wellFormed_of_putCurvePivots {c : Curve} (hshape : c.hasValidShape = true)
    (horders : ∀ piece ∈ c.pieces, piece.hasValidOrder = true)
    (hput : putCurvePivots h w c = .ok w') : c.IsWellFormed := by
  simp only [Curve.hasValidShape, Bool.and_eq_true, decide_eq_true_eq, beq_iff_eq] at hshape
  obtain ⟨⟨htwo, hnine⟩, hpieces⟩ := hshape
  exact ⟨htwo, hnine, ordered_of_putCurvePivots hput, hpieces, fun piece hpiece =>
    order_of_hasValidOrder (horders piece hpiece)⟩

/-- **A mapping that was written is well formed.** -/
theorem wellFormed_of_put {usesNlq : Bool} {id : Nat} (hvalid : m.Valid usesNlq)
    (hid : m.id.toNat = id) (hput : put h w m = .ok w') : m.IsWellFormed id := by
  have hpos {n : UInt32} (hn : n ≠ 0) : 1 ≤ n := by
    rw [UInt32.le_iff_toNat_le]
    have hne : n.toNat ≠ 0 := fun hzero => hn (UInt32.toNat_inj.1 hzero)
    have hone : (1 : UInt32).toNat = 1 := rfl
    omega
  refine ⟨hid, ?_, hpos hvalid.partitionsX, hpos hvalid.partitionsY⟩
  obtain ⟨_, -, hput⟩ := Checked.ok_of_bind hput
  obtain ⟨_, -, hput⟩ := Checked.ok_of_bind hput
  obtain ⟨_, hpivots, -⟩ := Checked.ok_of_bind hput
  obtain ⟨w₂, w₃, hput₀, hput₁, hput₂⟩ := putCurves_three hpivots
  intro c hc
  -- The shape was checked before anything was written, the order of the pivots only by writing.
  have hshape := hvalid.shape c hc
  have horders := hvalid.orders c hc
  rw [toList_three] at hc
  rcases List.mem_cons.1 hc with rfl | hc
  · exact wellFormed_of_putCurvePivots hshape horders hput₀
  rcases List.mem_cons.1 hc with rfl | hc
  · exact wellFormed_of_putCurvePivots hshape horders hput₁
  · obtain rfl := List.mem_singleton.1 hc
    exact wellFormed_of_putCurvePivots hshape horders hput₂

end Mapping

/-! ### Color descriptions -/

/-- A color description with an identifier and a bit depth that there are. -/
structure SourceColor.IsWellFormed (c : SourceColor) : Prop where
  id_le : c.id.toNat ≤ maxId
  bitDepth : c.hasValidBitDepth = true

/-- A description that was read has the identifier that was read before it. -/
theorem SourceColor.gives_read {id sceneRefresh : UInt8} (hid : id.toNat ≤ maxId) :
    Run.Gives (read id sceneRefresh) IsWellFormed := by
  refine .after fun yccToRgb => .after fun yccOffset => .after fun rgbToLms => ?_
  refine .after fun eotf => .after fun p₀ => .after fun p₁ => ?_
  refine .after fun p₂ => .after fun bitDepth => .check fun hdepth => ?_
  refine .after fun colorSpace => .after fun chromaFormat => .after fun fullRange => ?_
  refine .after fun minPq => .after fun maxPq => .after fun diagonal => ?_
  refine .pure ⟨hid, ?_⟩
  rw [Bool.not_eq_true', Bool.not_eq_false] at hdepth
  exact hdepth

/-! ### Sets of blocks -/

/-- A set of blocks that are as many as fit, each with those of its sort. -/
structure BlockSet.IsWellFormed (s : BlockSet) : Prop where
  limits : s.WithinLimits
  sorted : s.Sorted

theorem BlockSet.wellFormed_empty : ({} : BlockSet).IsWellFormed :=
  ⟨withinLimits_empty, sorted_empty⟩

/-- The static blocks of a well-formed set make a well-formed set. -/
theorem BlockSet.IsWellFormed.static {s : BlockSet} (h : s.IsWellFormed) :
    ({ static := s.static } : BlockSet).IsWellFormed where
  limits := ⟨h.limits.static_le, Nat.zero_le _⟩
  sorted := ⟨h.sorted.static, fun _ hb => absurd hb List.not_mem_nil⟩

/-- Nothing is kept of a block that does not fit. -/
theorem BlockSet.IsWellFormed.push {s s' : BlockSet} {b : Block} (h : s.IsWellFormed)
    (hpush : s.push b = .ok s') : s'.IsWellFormed := by
  obtain ⟨hlimits, rfl⟩ := (push_eq_ok_iff h.limits).1 hpush
  exact ⟨hlimits, h.sorted.append [b]⟩

namespace BlockGroup

variable {group : BlockGroup} {compressed : Bool} {strictness : Strictness} {kept : BlockSet}

theorem gives_readBlock (hkept : kept.IsWellFormed) :
    Run.Gives (readBlock group compressed strictness kept) BlockSet.IsWellFormed := by
  refine .after fun length => .after fun level => .after fun size => ?_
  refine .after fun left => .check fun _ => .after fun passed => ?_
  refine .ite (fun _ => ?_) fun _ => ?_
  · exact .after fun amount => .after fun _ => .pure hkept
  · refine .after fun block => ?_
    cases block with
    | some block => exact .ofExcept fun _ hpush => hkept.push hpush
    | none => exact .after fun _ => .pure hkept

theorem gives_readBlocks (n : Nat) (hkept : kept.IsWellFormed) :
    Run.Gives (readBlocks group compressed strictness n kept) BlockSet.IsWellFormed := by
  induction n generalizing kept with
  | zero => exact .pure hkept
  | succ n ih => exact .bind (gives_readBlock hkept) fun _ hmore => ih hmore

/-- **Blocks that are read stay well formed** with those that were kept before. -/
theorem gives_read (hkept : kept.IsWellFormed) :
    Run.Gives (read group compressed strictness kept) BlockSet.IsWellFormed :=
  .after fun count => .after fun _ => gives_readBlocks count hkept

end BlockGroup

end DolbyVision
