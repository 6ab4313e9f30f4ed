/-
**A mapping is read back.**

A mapping that passes its checks and is written is read as it was coded: coefficients beyond the
order of a piece and the inverse quantization of a residual that is not there are lost, and
floating-point coefficients are rounded.  A canonical mapping of a header with fixed-point
coefficients is read as it is.

Main definitions:

* `DolbyVision.Mapping.Valid` — what the checks of a mapping establish;
* `DolbyVision.Piece.coded`, `DolbyVision.Curve.coded`, `DolbyVision.Mapping.coded` — what the bits
  of a mapping keep of it;
* `DolbyVision.Mapping.IsCanonical` — a mapping that holds nothing that is not coded.

Main results:

* `DolbyVision.Mapping.conveys` — **a valid mapping is read as it was coded**;
* `DolbyVision.Mapping.coded_eq_self` — nothing of a canonical mapping is lost.
-/

import DolbyVision.Proofs.Rpu.Coefficient
import DolbyVision.Proofs.Rpu.Header
import DolbyVision.Rpu.Mapping

set_option relaxedAutoImplicit false
set_option autoImplicit false

namespace DolbyVision

open Bits

theorem toList_three {α : Type} (v : Vector α 3) : v.toList = [v[0], v[1], v[2]] := by
  rcases v with ⟨⟨_ | ⟨a, _ | ⟨b, _ | ⟨c, _ | ⟨d, l⟩⟩⟩⟩⟩, hsize⟩ <;> simp at hsize
  rfl

theorem toList_two {α : Type} (v : Vector α 2) : v.toList = [v[0], v[1]] := by
  rcases v with ⟨⟨_ | ⟨a, _ | ⟨b, _ | ⟨c, l⟩⟩⟩⟩, hsize⟩ <;> simp at hsize
  rfl

theorem eq_three {α : Type} (v : Vector α 3) : v = #v[v[0], v[1], v[2]] :=
  Vector.toList_inj.1 (toList_three v)

/-! ### What is coded -/

/-- A piece as it is coded: without the coefficients beyond its order. -/
def Piece.coded (h : Header) : Piece → Piece
  | polynomial order v =>
    polynomial order #v[Coefficient.codedSigned h v[0], Coefficient.codedSigned h v[1],
      if order = 2 then Coefficient.codedSigned h v[2] else 0]
  | mmr order constant rows =>
    mmr order (Coefficient.codedSigned h constant)
      #v[rows[0].map (Coefficient.codedSigned h),
        if 2 ≤ order then rows[1].map (Coefficient.codedSigned h) else Vector.replicate 7 0,
        if 3 ≤ order then rows[2].map (Coefficient.codedSigned h) else Vector.replicate 7 0]

/-- A curve as it is coded. -/
def Curve.coded (h : Header) (c : Curve) : Curve :=
  { c with pieces := c.pieces.map (Piece.coded h) }

/-- An inverse quantization as it is coded. -/
def Nlq.coded (h : Header) (n : Nlq) : Nlq where
  offset := n.offset
  inMax := Coefficient.codedUnsigned h n.inMax
  slope := Coefficient.codedUnsigned h n.slope
  threshold := Coefficient.codedUnsigned h n.threshold

/-- A piece without coefficients beyond its order. -/
def Piece.IsCanonical : Piece → Prop
  | polynomial order v => order = 2 ∨ v[2] = 0
  | mmr order _ rows =>
    (2 ≤ order ∨ rows[1] = Vector.replicate 7 0) ∧ (3 ≤ order ∨ rows[2] = Vector.replicate 7 0)

theorem Piece.coded_eq_self {h : Header} (htype : h.coefficientType = Header.fixedPoint) {p : Piece}
    (hp : p.IsCanonical) : p.coded h = p := by
  have hid : Coefficient.codedSigned h = id :=
    funext (Coefficient.codedSigned_of_fixedPoint htype)
  cases p with
  | polynomial order v =>
    have hlast : (if order = 2 then v[2] else 0) = v[2] := by
      rcases hp with horder | hzero
      · rw [if_pos horder]
      · rw [hzero, ite_self]
    simp only [coded, hid, id, hlast]
    rw [← eq_three]
  | mmr order constant rows =>
    obtain ⟨hsecond, hthird⟩ := hp
    have hrow₁ : (if 2 ≤ order then rows[1] else Vector.replicate 7 0) = rows[1] := by
      rcases hsecond with horder | hzero
      · rw [if_pos horder]
      · rw [hzero, ite_self]
    have hrow₂ : (if 3 ≤ order then rows[2] else Vector.replicate 7 0) = rows[2] := by
      rcases hthird with horder | hzero
      · rw [if_pos horder]
      · rw [hzero, ite_self]
    simp only [coded, hid, id, Vector.map_id, hrow₁, hrow₂]
    rw [← eq_three]

theorem Curve.coded_eq_self {h : Header} (htype : h.coefficientType = Header.fixedPoint) {c : Curve}
    (hc : ∀ p ∈ c.pieces, p.IsCanonical) : c.coded h = c := by
  have hmap : c.pieces.map (Piece.coded h) = c.pieces :=
    (List.map_congr_left fun p hp => Piece.coded_eq_self htype (hc p hp)).trans (List.map_id _)
  rw [coded, hmap]

theorem Nlq.coded_eq_self {h : Header} (htype : h.coefficientType = Header.fixedPoint) (n : Nlq) :
    n.coded h = n := by
  simp only [coded, Coefficient.codedUnsigned_of_fixedPoint htype]

namespace Mapping

/-- A mapping as it is coded: without the inverse quantization of a residual that is not there. -/
def coded (h : Header) (m : Mapping) : Mapping :=
  { m with
    curves := m.curves.map (Curve.coded h)
    nlq := if m.nlqMethod.isSome then m.nlq.map (Nlq.coded h) else Vector.replicate 3 {}
    nlqPivots := if m.nlqMethod.isSome then m.nlqPivots else Vector.replicate 2 0 }

/-- A mapping that holds nothing that is not coded. -/
structure IsCanonical (m : Mapping) : Prop where
  pieces : ∀ c ∈ m.curves.toList, ∀ p ∈ c.pieces, p.IsCanonical
  nlq : m.nlqMethod = none → m.nlq = Vector.replicate 3 {}
  nlqPivots : m.nlqMethod = none → m.nlqPivots = Vector.replicate 2 0

/-- **A canonical mapping is coded as it is**, if its coefficients are fixed-point numbers. -/
theorem coded_eq_self {h : Header} (htype : h.coefficientType = Header.fixedPoint) {m : Mapping}
    (hm : m.IsCanonical) : m.coded h = m := by
  have hcurves : m.curves.map (Curve.coded h) = m.curves := by
    refine Vector.toList_inj.1 ?_
    rw [Vector.toList_map]
    exact (List.map_congr_left fun c hc => Curve.coded_eq_self htype (hm.pieces c hc)).trans
      (List.map_id' _)
  have hid : Nlq.coded h = fun n => n := funext (Nlq.coded_eq_self htype)
  have hnlq : (if m.nlqMethod.isSome then m.nlq.map (Nlq.coded h) else Vector.replicate 3 {}) =
      m.nlq := by
    cases hmethod : m.nlqMethod with
    | some method => simp [hid]
    | none => simp [hm.nlq hmethod]
  have hpivots : (if m.nlqMethod.isSome then m.nlqPivots else Vector.replicate 2 0) =
      m.nlqPivots := by
    cases hmethod : m.nlqMethod with
    | some method => simp
    | none => simp [hm.nlqPivots hmethod]
  rw [coded, hcurves, hnlq, hpivots]

/-! ### Valid mappings -/

end Mapping

/-- Whether a curve has 2 to 9 pivots and one piece fewer than pivots. -/
def Curve.hasValidShape (c : Curve) : Bool :=
  2 ≤ c.pivots.length && c.pivots.length ≤ maxPivots && c.pieces.length + 1 == c.pivots.length

namespace Mapping

/-- What the checks of a mapping establish. -/
structure Valid (m : Mapping) (usesNlq : Bool) : Prop where
  id_le : m.id.toNat ≤ maxId
  shape : ∀ c ∈ m.curves.toList, c.hasValidShape = true
  orders : ∀ c ∈ m.curves.toList, ∀ p ∈ c.pieces, p.hasValidOrder = true
  partitionsX : m.partitionsX ≠ 0
  partitionsY : m.partitionsY ≠ 0
  nlq : m.nlqMethod.isSome = usesNlq

theorem shape_of_validateCurve {c : Curve} (hok : validateCurve c = .ok ()) :
    c.hasValidShape = true ∧ ∀ p ∈ c.pieces, p.hasValidOrder = true := by
  unfold validateCurve at hok
  obtain ⟨hpivots, hok⟩ := Checked.ok_of_check hok
  obtain ⟨pieces, hpieces, hok⟩ := Checked.ok_of_bind hok
  obtain ⟨-, rfl⟩ := Checked.sub_eq_ok hpieces
  obtain ⟨hcount, hok⟩ := Checked.ok_of_check hok
  split at hok
  · cases hok
  · case isFalse horders =>
    rw [Bool.not_eq_true', Bool.not_eq_false, List.all_eq_true] at horders
    refine ⟨?_, horders⟩
    simp only [Curve.hasValidShape, Bool.and_eq_true, decide_eq_true_eq, beq_iff_eq]
    omega

/-- A curve of that shape whose pieces have orders of their kinds passes its checks. -/
theorem validateCurve_of_shape {c : Curve} (hshape : c.hasValidShape = true)
    (horders : c.pieces.all Piece.hasValidOrder = true) : validateCurve c = .ok () := by
  simp only [Curve.hasValidShape, Bool.and_eq_true, decide_eq_true_eq, beq_iff_eq] at hshape
  obtain ⟨⟨htwo, hmax⟩, hcount⟩ := hshape
  have hpivots : ¬ (c.pivots.length < 2 ∨ maxPivots < c.pivots.length) := by omega
  have hpieces : ¬ c.pieces.length ≠ c.pivots.length - 1 := by omega
  unfold validateCurve
  rw [if_neg hpivots, Checked.bind_ok (Checked.sub_of_le (by omega)), if_neg hpieces, horders]
  rfl

/-- A mapping that passes its checks is valid. -/
theorem valid_of_validate {m : Mapping} {usesNlq : Bool} (hok : m.validate usesNlq = .ok ()) :
    m.Valid usesNlq := by
  unfold validate at hok
  obtain ⟨hid, hok⟩ := Checked.ok_of_check hok
  obtain ⟨⟨⟩, hcurves, hok⟩ := Checked.ok_of_bind hok
  obtain ⟨hpartitions, hok⟩ := Checked.ok_of_check hok
  rw [not_or] at hpartitions
  have hcurves := fun c hc => shape_of_validateCurve (Checked.ok_of_forM hcurves c hc)
  split at hok
  · cases hok
  · case isFalse hnlq =>
    exact {
      id_le := Nat.le_of_not_lt hid
      shape := fun c hc => (hcurves c hc).1
      orders := fun c hc => (hcurves c hc).2
      partitionsX := hpartitions.1
      partitionsY := hpartitions.2
      nlq := not_not.1 hnlq }

/-- The predecessor of an order that passes its check is a number of two bits. -/
theorem order_bounds {p : Piece} (horder : p.hasValidOrder = true) :
    1 ≤ p.order.toNat ∧ p.order.toNat ≤ 3 := by
  cases p with
  | polynomial order c =>
    have hvalid : order = 1 ∨ order = 2 := by
      simpa only [Piece.hasValidOrder, Bool.or_eq_true, beq_iff_eq] using horder
    have hbounds : 1 ≤ order.toNat ∧ order.toNat ≤ 3 := by rcases hvalid with rfl | rfl <;> decide
    exact hbounds
  | mmr order constant rows =>
    have hvalid : 1 ≤ order ∧ order ≤ 3 := by
      simpa only [Piece.hasValidOrder, Bool.and_eq_true, decide_eq_true_eq] using horder
    exact ⟨UInt8.le_iff_toNat_le.1 hvalid.1, UInt8.le_iff_toNat_le.1 hvalid.2⟩

/-! ### Reading back -/

variable {h : Header} {size : Nat} {w w₁ w' : Writer}

/-- A pivot does not decrease, and grows by what its bits can say. -/
theorem putDeltas_cons {width : Nat} {previous pivot : UInt16} {pivots : List UInt16}
    (hput : putDeltas w width previous (pivot :: pivots) = .ok w') :
    previous.toNat ≤ pivot.toNat ∧ pivot.toNat - previous.toNat < 2 ^ width ∧
      ∃ w₁, w.put width (pivot.toNat - previous.toNat) = .ok w₁ ∧
        putDeltas w₁ width pivot pivots = .ok w' := by
  rw [putDeltas] at hput
  obtain ⟨-, hput⟩ := Checked.ok_of_check hput
  obtain ⟨delta, hdelta, hput⟩ := Checked.ok_of_bind hput
  obtain ⟨hle, rfl⟩ := Checked.sub_eq_ok hdelta
  obtain ⟨limit, hlimit, hput⟩ := Checked.ok_of_bind hput
  obtain ⟨-, rfl⟩ := Checked.bit_eq_ok hlimit
  obtain ⟨hfits, hput⟩ := Checked.ok_of_check hput
  rw [Nat.one_shiftLeft, not_le] at hfits
  obtain ⟨w₁, hfirst, hrest⟩ := Checked.ok_of_bind hput
  exact ⟨hle, hfits, w₁, hfirst, hrest⟩

/-- A pivot is recovered from its difference and the pivot before. -/
theorem conveys_delta {width : Nat} (h32 : width ≤ 32) {previous pivot : UInt16}
    (hle : previous.toNat ≤ pivot.toNat) (hdelta : pivot.toNat - previous.toNat < 2 ^ width)
    (hput : w.put width (pivot.toNat - previous.toNat) = .ok w₁)
    {β : Type} {f : Nat → BitParser β} {b : β} (hrest : Conveys size w₁ w' (f pivot.toNat) b) :
    Conveys size w w'
      (Reader.bits32 width >>= fun delta => liftM (Checked.add 32 previous.toNat delta) >>= f)
      b := by
  have hword := pivot.toNat_lt
  have hadd : Checked.add 32 previous.toNat ((pivot.toNat - previous.toNat) % 2 ^ width) =
      .ok pivot.toNat := by
    rw [Checked.add, Nat.mod_eq_of_lt hdelta, Nat.add_sub_cancel' hle]
    exact Checked.within_of_lt (by rw [Nat.one_shiftLeft]; omega)
  exact (conveys_bits32 h32 hput).bind ((Conveys.ofExcept hadd).bind hrest)

theorem ofNat_min_toNat (pivot : UInt16) : UInt16.ofNat (min pivot.toNat 0xffff) = pivot := by
  have hword := pivot.toNat_lt
  rw [Nat.min_eq_left (by omega), UInt16.ofNat_toNat]

/-- Pivots are recovered by adding up their differences. -/
theorem conveys_deltas {width : Nat} (h32 : width ≤ 32) {previous : UInt16} {pivots : List UInt16}
    (hput : putDeltas w width previous pivots = .ok w') :
    Conveys size w w' (readPivots width pivots.length previous.toNat) pivots := by
  induction pivots generalizing w previous with
  | nil =>
    obtain rfl := Except.ok.inj hput
    exact Conveys.pure []
  | cons pivot pivots ih =>
    obtain ⟨hle, hdelta, w₁, hfirst, hrest⟩ := putDeltas_cons hput
    refine conveys_delta h32 hle hdelta hfirst ?_
    refine ((ih hrest).andThen (UInt16.ofNat (min pivot.toNat 0xffff) :: ·)).congr ?_
    rw [ofNat_min_toNat]

/-- The pivots of a curve are read back. -/
theorem conveys_curvePivots (hvalid : h.Valid) {c : Curve} (hshape : c.hasValidShape = true)
    (hput : putCurvePivots h w c = .ok w') :
    Conveys size w w' (readCurvePivots h) c.pivots := by
  simp only [Curve.hasValidShape, Bool.and_eq_true, decide_eq_true_eq] at hshape
  obtain ⟨⟨htwo, hmax⟩, -⟩ := hshape
  unfold putCurvePivots at hput
  obtain ⟨count, hcount, hput⟩ := Checked.ok_of_bind hput
  obtain ⟨-, rfl⟩ := Checked.sub_eq_ok hcount
  obtain ⟨w₁, hcoded, hdeltas⟩ := Checked.ok_of_bind hput
  have hdepth := (Header.isBitDepth_iff.1 hvalid.baseLayer).2
  have hcode : c.pivots.length - 2 ≤ maxCode := by unfold maxCode; unfold maxPivots at hmax; omega
  have hlength : c.pivots.length - 2 + 2 = c.pivots.length := Nat.sub_add_cancel htwo
  unfold readCurvePivots
  refine (conveys_unsignedCode hcode hcoded).bind ?_
  rw [hlength]
  exact Conveys.guard (by omega) (conveys_deltas (by omega) hdeltas)

/-- A coefficient in front of others. -/
theorem putCoefficients_cons {c : Int64} {cs : List Int64}
    (hput : putCoefficients h w (c :: cs) = .ok w') :
    ∃ w₁, Coefficient.putSigned w h c = .ok w₁ ∧ putCoefficients h w₁ cs = .ok w' := by
  rw [putCoefficients, List.foldlM_cons] at hput
  exact Checked.ok_of_bind hput

/-- The order of a piece is coded as its predecessor, and put together again within a byte. -/
theorem add_order_eq {order : UInt8} (hpos : 1 ≤ order.toNat) :
    Checked.add 8 (order.toNat - 1) 1 = .ok order.toNat := by
  have hword := order.toNat_lt
  rw [Checked.add_of_lt (by omega), Nat.sub_add_cancel hpos]

/-- A polynomial of order 1 has a flag in front of its two coefficients, one of order 2 has three
coefficients. -/
theorem conveys_polynomial {order : UInt8} {c : Vector Int64 3} (horder : order = 1 ∨ order = 2)
    (hput : putPiece h w (.polynomial order c) = .ok w') :
    ∃ w₁, w.putUnsignedCode 0 = .ok w₁ ∧
      Conveys size w₁ w' (readPolynomial h) ((Piece.polynomial order c).coded h) := by
  rw [putPiece] at hput
  obtain ⟨w₁, hmethod, hput⟩ := Checked.ok_of_bind hput
  obtain ⟨coded, hcoded, hput⟩ := Checked.ok_of_bind hput
  obtain ⟨hpos, rfl⟩ := Checked.sub_eq_ok hcoded
  obtain ⟨w₂, hcode, hput⟩ := Checked.ok_of_bind hput
  obtain ⟨w₃, hflag, hput⟩ := Checked.ok_of_bindIf hput
  refine ⟨w₁, hmethod, ?_⟩
  rw [toList_three] at hput
  unfold readPolynomial
  rcases horder with rfl | rfl
  · obtain ⟨w₄, hput₀, hput⟩ := putCoefficients_cons hput
    obtain ⟨w₅, hput₁, hput⟩ := putCoefficients_cons hput
    obtain rfl := Except.ok.inj hput
    refine (conveys_unsignedCode (Nat.zero_le _) hcode).bind (Conveys.guard (by decide) ?_)
    refine (conveys_flag (b := false) hflag).bind ?_
    refine (Coefficient.conveys_signed hput₀).bind ?_
    refine (Coefficient.conveys_signed hput₁).bind ?_
    refine Conveys.bind (Conveys.pure 0) ?_
    exact (Conveys.ofExcept (add_order_eq hpos)).bind (Conveys.pure _)
  · obtain rfl := Except.ok.inj hflag
    obtain ⟨w₄, hput₀, hput⟩ := putCoefficients_cons hput
    obtain ⟨w₅, hput₁, hput⟩ := putCoefficients_cons hput
    obtain ⟨w₆, hput₂, hput⟩ := putCoefficients_cons hput
    obtain rfl := Except.ok.inj hput
    refine (conveys_unsignedCode (by decide : 1 ≤ maxCode) hcode).bind
      (Conveys.guard (by decide) ?_)
    refine (Coefficient.conveys_signed hput₀).bind ?_
    refine (Coefficient.conveys_signed hput₁).bind ?_
    refine (Coefficient.conveys_signed hput₂).bind ?_
    exact (Conveys.ofExcept (add_order_eq hpos)).bind (Conveys.pure _)

/-- The row of a regression in front of others. -/
theorem putRows_cons {row : Vector Int64 7} {rows : List (Vector Int64 7)}
    (hput : (row :: rows).foldlM (fun w row => putCoefficients h w row.toList) w = .ok w') :
    ∃ w₁, putCoefficients h w row.toList = .ok w₁ ∧
      rows.foldlM (fun w row => putCoefficients h w row.toList) w₁ = .ok w' := by
  rw [List.foldlM_cons] at hput
  exact Checked.ok_of_bind hput

/-- A row that is written is read back. -/
theorem conveys_rowPresent {row : Vector Int64 7}
    (hput : putCoefficients h w row.toList = .ok w') :
    Conveys size w w' (readRow h true) (row.map (Coefficient.codedSigned h)) :=
  Conveys.times (fun _ _ _ _ hw => Coefficient.conveys_signed hw) hput

/-- A row that is not written is read as zeros. -/
theorem conveys_rowAbsent : Conveys size w w (readRow h false) (Vector.replicate 7 0) :=
  Conveys.pure _

/-- A regression has a constant and as many rows as its order. -/
theorem conveys_regression {order : UInt8} {constant : Int64} {rows : Vector (Vector Int64 7) 3}
    (horder : order = 1 ∨ order = 2 ∨ order = 3)
    (hput : putPiece h w (.mmr order constant rows) = .ok w') :
    ∃ w₁, w.putUnsignedCode 1 = .ok w₁ ∧
      Conveys size w₁ w' (readRegression h) ((Piece.mmr order constant rows).coded h) := by
  rw [putPiece] at hput
  obtain ⟨w₁, hmethod, hput⟩ := Checked.ok_of_bind hput
  obtain ⟨coded, hcoded, hput⟩ := Checked.ok_of_bind hput
  obtain ⟨hpos, rfl⟩ := Checked.sub_eq_ok hcoded
  obtain ⟨w₂, hcode, hput⟩ := Checked.ok_of_bind hput
  obtain ⟨w₃, hconstant, hput⟩ := Checked.ok_of_bind hput
  refine ⟨w₁, hmethod, ?_⟩
  have hlast : Conveys size w' w' (liftM (Checked.add 8 (order.toNat - 1) 1) : BitParser Nat)
      order.toNat := Conveys.ofExcept (add_order_eq hpos)
  rw [toList_three] at hput
  unfold readRegression
  rcases horder with rfl | rfl | rfl
  · obtain ⟨w₄, hrow₀, hput⟩ := putRows_cons hput
    obtain rfl := Except.ok.inj hput
    refine (conveys_bits32 (by decide) hcode).bind (Conveys.guard (by decide) ?_)
    refine (Coefficient.conveys_signed hconstant).bind ?_
    refine (conveys_rowPresent hrow₀).bind ?_
    exact conveys_rowAbsent.bind (conveys_rowAbsent.bind (hlast.bind (Conveys.pure _)))
  · obtain ⟨w₄, hrow₀, hput⟩ := putRows_cons hput
    obtain ⟨w₅, hrow₁, hput⟩ := putRows_cons hput
    obtain rfl := Except.ok.inj hput
    refine (conveys_bits32 (by decide) hcode).bind (Conveys.guard (by decide) ?_)
    refine (Coefficient.conveys_signed hconstant).bind ?_
    refine (conveys_rowPresent hrow₀).bind ((conveys_rowPresent hrow₁).bind ?_)
    exact conveys_rowAbsent.bind (hlast.bind (Conveys.pure _))
  · obtain ⟨w₄, hrow₀, hput⟩ := putRows_cons hput
    obtain ⟨w₅, hrow₁, hput⟩ := putRows_cons hput
    obtain ⟨w₆, hrow₂, hput⟩ := putRows_cons hput
    obtain rfl := Except.ok.inj hput
    refine (conveys_bits32 (by decide) hcode).bind (Conveys.guard (by decide) ?_)
    refine (Coefficient.conveys_signed hconstant).bind ?_
    refine (conveys_rowPresent hrow₀).bind ((conveys_rowPresent hrow₁).bind ?_)
    exact (conveys_rowPresent hrow₂).bind (hlast.bind (Conveys.pure _))

/-- **A piece is read as it was coded.** -/
theorem conveys_piece {p : Piece} (horder : p.hasValidOrder = true)
    (hput : putPiece h w p = .ok w') :
    Conveys size w w' (readPiece h) (p.coded h) := by
  unfold readPiece
  cases p with
  | polynomial order c =>
    simp only [Piece.hasValidOrder, Bool.or_eq_true, beq_iff_eq] at horder
    obtain ⟨w₁, hmethod, hpiece⟩ := conveys_polynomial horder hput
    refine (conveys_unsignedCode (Nat.zero_le _) hmethod).bind ?_
    exact hpiece
  | mmr order constant rows =>
    simp only [Piece.hasValidOrder, Bool.and_eq_true, decide_eq_true_eq] at horder
    have hthree : order = 1 ∨ order = 2 ∨ order = 3 := by
      rw [UInt8.le_iff_toNat_le, UInt8.le_iff_toNat_le] at horder
      rw [← UInt8.toNat_inj, ← UInt8.toNat_inj, ← UInt8.toNat_inj]
      have hone : (1 : UInt8).toNat = 1 := rfl
      have htwo : (2 : UInt8).toNat = 2 := rfl
      have hthree : (3 : UInt8).toNat = 3 := rfl
      omega
    obtain ⟨w₁, hmethod, hpiece⟩ := conveys_regression hthree hput
    refine (conveys_unsignedCode (by decide : 1 ≤ maxCode) hmethod).bind ?_
    exact hpiece

/-- The pieces of a curve are as many as its pivots ask for. -/
theorem conveys_pieces {c : Curve} (hshape : c.hasValidShape = true)
    (horders : ∀ p ∈ c.pieces, p.hasValidOrder = true) (hput : putPieces h w c = .ok w') :
    Conveys size w w' (readPieces h c.pivots) (c.coded h) := by
  simp only [Curve.hasValidShape, Bool.and_eq_true, beq_iff_eq] at hshape
  have hcount : c.pivots.length - 1 = c.pieces.length := by omega
  unfold readPieces
  rw [hcount]
  exact (Conveys.list (fun p hp _ _ hw => conveys_piece (horders p hp) hw) hput).andThen
    (Curve.mk c.pivots)

/-- The parameters of an inverse quantization are read as they were coded. -/
theorem conveys_nlq (hvalid : h.Valid) {n : Nlq} (hput : putNlq h w n = .ok w') :
    Conveys size w w' (readNlq h) (n.coded h) := by
  have hdepth := (Header.isBitDepth_iff.1 hvalid.enhancementLayer).2
  obtain ⟨limit, hlimit, hput⟩ := Checked.ok_of_bind hput
  obtain ⟨-, rfl⟩ := Checked.bit_eq_ok hlimit
  obtain ⟨hoffset, hput⟩ := Checked.ok_of_check hput
  rw [Nat.one_shiftLeft, not_le] at hoffset
  obtain ⟨w₁, hfirst, hput⟩ := Checked.ok_of_bind hput
  obtain ⟨w₂, hinMax, hput⟩ := Checked.ok_of_bind hput
  obtain ⟨w₃, hslope, hthreshold⟩ := Checked.ok_of_bind hput
  unfold readNlq
  refine (conveys_u16 (by omega) hfirst).bind ?_
  rw [lower16_eq_self hoffset]
  refine (Coefficient.conveys_unsigned hinMax).bind ?_
  refine (Coefficient.conveys_unsigned hslope).bind ?_
  exact (Coefficient.conveys_unsigned hthreshold).andThen fun threshold =>
    Nlq.mk n.offset _ _ threshold

/-- The method of the inverse quantization is read back together with its two pivots. -/
theorem conveys_nlqMethod (hvalid : h.Valid) {m : Mapping} {method : NlqMethod}
    (hmethod : m.nlqMethod = some method) (hput : putNlqMethod h w m = .ok w') :
    Conveys size w w' (readNlqMethod h) (method, m.nlqPivots) := by
  have hdepth := (Header.isBitDepth_iff.1 hvalid.baseLayer).2
  unfold putNlqMethod at hput
  rw [hmethod] at hput
  obtain ⟨w₁, hcode, hput⟩ := Checked.ok_of_bind hput
  have hpivots : m.nlqPivots.toList = [m.nlqPivots[0], m.nlqPivots[1]] := toList_two m.nlqPivots
  rw [hpivots] at hput
  obtain ⟨hle₀, hdelta₀, w₂, hput₀, hput⟩ := putDeltas_cons hput
  obtain ⟨hle₁, hdelta₁, w₃, hput₁, hput⟩ := putDeltas_cons hput
  obtain rfl := Except.ok.inj hput
  unfold readNlqMethod
  cases method
  refine (conveys_bits32 (by decide) hcode).bind ?_
  refine Conveys.guard (by decide) ?_
  refine conveys_delta (by omega) hle₀ hdelta₀ hput₀ ?_
  refine conveys_delta (by omega) hle₁ hdelta₁ hput₁ ?_
  refine (Conveys.pure _).congr ?_
  rw [ofNat_min_toNat, ofNat_min_toNat]
  exact Prod.ext rfl (Vector.toList_inj.1 hpivots).symm

/-- The method and the pivots of the inverse quantization are read back if there is a residual. -/
theorem conveys_optionalMethod (hheader : h.Valid) {m : Mapping} (hvalid : m.Valid h.usesNlq)
    (hput : putNlqMethod h w m = .ok w') :
    Conveys size w w' (if h.usesNlq then some <$> readNlqMethod h else pure none)
      (m.nlqMethod.map fun method => (method, m.nlqPivots)) := by
  have hnlq := hvalid.nlq
  cases hmethod : m.nlqMethod with
  | some method =>
    rw [hmethod, Option.isSome_some] at hnlq
    rw [if_pos hnlq.symm]
    exact (conveys_nlqMethod hheader hmethod hput).map some
  | none =>
    rw [hmethod, Option.isSome_none] at hnlq
    rw [putNlqMethod, hmethod] at hput
    obtain rfl := Except.ok.inj hput
    rw [if_neg (by rw [← hnlq]; exact Bool.false_ne_true)]
    exact Conveys.pure none

/-- The parameters of the inverse quantization are read back if there is a residual. -/
theorem conveys_optionalNlq (hheader : h.Valid) {m : Mapping} (hvalid : m.Valid h.usesNlq)
    (hput : (if m.nlqMethod.isSome then m.nlq.toList.foldlM (putNlq h) w else return w) = .ok w') :
    Conveys size w w'
      (if h.usesNlq then Reader.times 3 (readNlq h) else pure (Vector.replicate 3 {}))
      (if m.nlqMethod.isSome then m.nlq.map (Nlq.coded h) else Vector.replicate 3 {}) := by
  rw [hvalid.nlq] at hput ⊢
  split at hput
  · case isTrue huses =>
    rw [if_pos huses, if_pos huses]
    exact Conveys.times (fun _ _ _ _ hw => conveys_nlq hheader hw) hput
  · case isFalse huses =>
    obtain rfl := Except.ok.inj hput
    rw [if_neg huses, if_neg huses]
    exact Conveys.pure _

/-- The number of partitions is read back from its predecessor. -/
theorem conveys_partitions {n : UInt32} (hn : n ≠ 0)
    (hput : w.putUnsignedCode (n.toNat - 1) = .ok w₁) {β : Type} {f : Nat → BitParser β} {b : β}
    (hrest : Conveys size w₁ w' (f n.toNat) b) :
    Conveys size w w'
      (Reader.unsignedCode >>= fun code => liftM (Checked.add 32 code 1) >>= f) b := by
  have hpos : n.toNat ≠ 0 := fun hzero => hn (UInt32.toNat_inj.1 hzero)
  have hword := n.toNat_lt
  have hcode : n.toNat - 1 ≤ maxCode := by unfold maxCode; omega
  have hadd : Checked.add 32 (n.toNat - 1) 1 = .ok n.toNat := by
    rw [Checked.add, Nat.sub_add_cancel (by omega)]
    exact Checked.within_of_lt (by rw [Nat.one_shiftLeft]; exact hword)
  exact (conveys_unsignedCode hcode hput).bind ((Conveys.ofExcept hadd).bind hrest)

/-- The curves of a mapping are written one after the other. -/
theorem putCurves_three {put : Writer → Curve → Except Fault Writer} {curves : Vector Curve 3}
    (hput : curves.toList.foldlM put w = .ok w') :
    ∃ w₁ w₂, put w curves[0] = .ok w₁ ∧ put w₁ curves[1] = .ok w₂ ∧ put w₂ curves[2] = .ok w' := by
  rw [toList_three, List.foldlM_cons] at hput
  obtain ⟨w₁, hput₀, hput⟩ := Checked.ok_of_bind hput
  rw [List.foldlM_cons] at hput
  obtain ⟨w₂, hput₁, hput⟩ := Checked.ok_of_bind hput
  rw [List.foldlM_cons] at hput
  obtain ⟨w₃, hput₂, hput⟩ := Checked.ok_of_bind hput
  obtain rfl := Except.ok.inj hput
  exact ⟨w₁, w₂, hput₀, hput₁, hput₂⟩

/-- **A valid mapping is read as it was coded**, behind its identifier. -/
theorem conveys (hheader : h.Valid) {m : Mapping} (hvalid : m.Valid h.usesNlq) {id : Nat}
    (hid : m.id.toNat = id) (hput : put h w m = .ok w') :
    Conveys size w w' (read h id h.usesNlq) (m.coded h) := by
  subst hid
  have hcurve (i : Nat) (hi : i < 3) : m.curves[i] ∈ m.curves.toList :=
    Vector.mem_toList_iff.2 (Vector.getElem_mem hi)
  obtain ⟨u₁, hcolorSpace, hput⟩ := Checked.ok_of_bind hput
  obtain ⟨u₂, hchromaFormat, hput⟩ := Checked.ok_of_bind hput
  obtain ⟨w₁, hpivots, hput⟩ := Checked.ok_of_bind hput
  obtain ⟨w₂, hmethod, hput⟩ := Checked.ok_of_bind hput
  obtain ⟨partitionsX, hx, hput⟩ := Checked.ok_of_bind hput
  obtain ⟨-, rfl⟩ := Checked.sub_eq_ok hx
  obtain ⟨u₃, hcodeX, hput⟩ := Checked.ok_of_bind hput
  obtain ⟨partitionsY, hy, hput⟩ := Checked.ok_of_bind hput
  obtain ⟨-, rfl⟩ := Checked.sub_eq_ok hy
  obtain ⟨u₄, hcodeY, hput⟩ := Checked.ok_of_bind hput
  obtain ⟨w₃, hpieces, hput⟩ := Checked.ok_of_bind hput
  obtain ⟨v₁, v₂, hpivots₀, hpivots₁, hpivots₂⟩ := putCurves_three hpivots
  obtain ⟨v₃, v₄, hpieces₀, hpieces₁, hpieces₂⟩ := putCurves_three hpieces
  -- All pivots come in front of the partitions, and all pieces behind them.
  unfold read
  refine (conveys_unsignedCode (byte_le_maxCode _) hcolorSpace).bind ?_
  refine (conveys_unsignedCode (byte_le_maxCode _) hchromaFormat).bind ?_
  refine (conveys_curvePivots hheader (hvalid.shape _ (hcurve 0 (by decide))) hpivots₀).bind ?_
  refine (conveys_curvePivots hheader (hvalid.shape _ (hcurve 1 (by decide))) hpivots₁).bind ?_
  refine (conveys_curvePivots hheader (hvalid.shape _ (hcurve 2 (by decide))) hpivots₂).bind ?_
  refine (conveys_optionalMethod hheader hvalid hmethod).bindIf ?_
  refine conveys_partitions hvalid.partitionsX hcodeX ?_
  refine conveys_partitions hvalid.partitionsY hcodeY ?_
  refine (conveys_pieces (hvalid.shape _ (hcurve 0 (by decide)))
    (hvalid.orders _ (hcurve 0 (by decide))) hpieces₀).bind ?_
  refine (conveys_pieces (hvalid.shape _ (hcurve 1 (by decide)))
    (hvalid.orders _ (hcurve 1 (by decide))) hpieces₁).bind ?_
  refine (conveys_pieces (hvalid.shape _ (hcurve 2 (by decide)))
    (hvalid.orders _ (hcurve 2 (by decide))) hpieces₂).bind ?_
  refine (conveys_optionalNlq hheader hvalid hput).bindIf ((Conveys.pure _).congr ?_)
  have hcurves : m.curves.map (Curve.coded h) =
      #v[m.curves[0].coded h, m.curves[1].coded h, m.curves[2].coded h] := by
    rw [eq_three (m.curves.map _), Vector.getElem_map, Vector.getElem_map, Vector.getElem_map]
  rw [coded, hcurves]
  simp only [UInt8.ofNat_toNat, UInt32.ofNat_toNat]
  cases hmethod : m.nlqMethod with
  | some method => simp
  | none => simp

end Mapping

end DolbyVision
