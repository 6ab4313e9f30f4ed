/-
**A mapping takes the same bits wherever it is written.**

Whether a mapping can be written does not depend on where its writer stands, and neither do the bits
that it takes.  This does not hold of a group of blocks, which starts at a byte boundary: what a
group takes is in `BlockGroup.length_put`.

Main definitions:

* `DolbyVision.Bits.Movable` — a write that appends the same bits everywhere, or fails everywhere.

Main results:

* `DolbyVision.Bits.Movable.bind`, `Movable.foldlM`, `Movable.ite` — the rules for writes;
* `DolbyVision.Mapping.movable_put` — **a mapping can be written everywhere or nowhere**, with the
  same bits;
* `DolbyVision.Mapping.length_put_ge` — **a mapping takes a byte or more**.
-/

import DolbyVision.Proofs.Rpu.Mapping

set_option relaxedAutoImplicit false
set_option autoImplicit false

namespace DolbyVision

open Bits

/-! ### Writes that may be moved -/

namespace Bits

/-- A write that succeeds succeeds everywhere, and appends the same bits. -/
def Movable (write : Writer → Except Fault Writer) : Prop :=
  ∀ w w', write w = .ok w' → ∃ bits, Appends write bits

namespace Movable

variable {α : Type} {f g : Writer → Except Fault Writer} {w w' : Writer}

/-- A write that may be moved goes on from where its writer was. -/
theorem start (hf : Movable f) (h : f w = .ok w') : w.written <+: w'.written := by
  obtain ⟨bits, hbits⟩ := hf w w' h
  rw [hbits.written h]
  exact List.prefix_append ..

/-- At any other writer it succeeds as well, and takes as many bits. -/
theorem elsewhere (hf : Movable f) (h : f w = .ok w') (v : Writer) :
    ∃ v', f v = .ok v' ∧
      v'.written.length + w.written.length = v.written.length + w'.written.length := by
  obtain ⟨bits, hbits⟩ := hf w w' h
  obtain ⟨v', hv, hwritten⟩ := hbits v
  refine ⟨v', hv, ?_⟩
  rw [hbits.written h, hwritten, List.length_append, List.length_append]
  omega

theorem pure : Movable fun w => Pure.pure w :=
  fun _ _ _ => ⟨[], Appends.pure⟩

theorem throw {fault : Fault} : Movable fun _ => MonadExcept.throw fault := by
  intro w w' h
  cases h

/-- Writes that follow one another append the bits of both. -/
theorem bind (hf : Movable f) (hg : Movable g) : Movable fun w => f w >>= g := by
  intro w w' h
  obtain ⟨w₁, hfirst, hsecond⟩ := Checked.ok_of_bind h
  obtain ⟨bits₁, hbits₁⟩ := hf w w₁ hfirst
  obtain ⟨bits₂, hbits₂⟩ := hg w₁ w' hsecond
  exact ⟨bits₁ ++ bits₂, hbits₁.bind hbits₂⟩

/-- A number that is computed in between does not depend on the writer. -/
theorem bindValue {x : Except Fault α} {g : α → Writer → Except Fault Writer}
    (hg : ∀ a, Movable (g a)) : Movable fun w => x >>= fun a => g a w := by
  cases x with
  | error fault => exact throw
  | ok a => exact hg a

theorem ite {c : Prop} [Decidable c] (hf : Movable f) (hg : Movable g) :
    Movable fun w => if c then f w else g w := by
  by_cases hc : c
  · simpa only [if_pos hc] using hf
  · simpa only [if_neg hc] using hg

/-- A list of items may be moved if each of them may. -/
theorem foldlM {put : Writer → α → Except Fault Writer} {items : List α}
    (hitems : ∀ a ∈ items, Movable fun w => put w a) :
    Movable fun w => items.foldlM put w := by
  induction items with
  | nil => exact pure
  | cons a items ih =>
    obtain ⟨hfirst, hrest⟩ := List.forall_mem_cons.1 hitems
    simp only [List.foldlM_cons]
    exact hfirst.bind (ih hrest)

end Movable

/-! ### Single fields -/

theorem movable_put (width value : Nat) : Movable fun w => w.put width value := by
  intro w w' h
  exact ⟨_, appends_put (Writer.written_of_put h).1 value⟩

theorem movable_putFlag (b : Bool) : Movable fun w => w.putFlag b :=
  fun _ _ _ => ⟨_, appends_putFlag b⟩

theorem movable_putUnsignedCode (n : Nat) : Movable fun w => w.putUnsignedCode n :=
  fun _ _ h => ⟨_, Writer.appends_of_putUnsignedCode h⟩

theorem movable_putFields (fields : List Field) : Movable fun w => w.putFields fields :=
  .foldlM fun f _ => movable_put f.width f.value

theorem movable_putSignedCode (n : Int) : Movable fun w => w.putSignedCode n :=
  fun _ _ h => ⟨_, Writer.appends_of_putSignedCode h⟩

end Bits

/-! ### Coefficients -/

namespace Coefficient

variable (h : Header)

theorem movable_putScaled (units : Float) : Movable fun w => putScaled w h units :=
  .bindValue fun _ => movable_put 32 _

theorem movable_putSigned (c : Int64) : Movable fun w => putSigned w h c := by
  unfold putSigned
  refine .ite (.bindValue fun unit => .ite ?_ .throw) (movable_putScaled h _)
  exact (movable_putSignedCode _).bind (movable_put _ _)

theorem movable_putUnsigned (c : UInt64) : Movable fun w => putUnsigned w h c := by
  unfold putUnsigned
  refine .ite (.bindValue fun unit => .ite ?_ .throw) (movable_putScaled h _)
  exact (movable_putUnsignedCode _).bind (movable_put _ _)

end Coefficient

/-! ### Mappings -/

namespace Mapping

variable (h : Header)

theorem movable_putDeltas (width : Nat) (previous : UInt16) (pivots : List UInt16) :
    Movable fun w => putDeltas w width previous pivots := by
  induction pivots generalizing previous with
  | nil => exact .pure
  | cons pivot pivots ih =>
    simp only [putDeltas]
    refine .ite .throw (.bindValue fun delta => .bindValue fun limit => .ite .throw ?_)
    exact (movable_put width delta).bind (ih pivot)

theorem movable_putCurvePivots (c : Curve) : Movable fun w => putCurvePivots h w c := by
  unfold putCurvePivots
  refine .bindValue fun count => ?_
  exact (movable_putUnsignedCode count).bind (movable_putDeltas _ _ _)

theorem movable_putCoefficients (coefficients : List Int64) :
    Movable fun w => putCoefficients h w coefficients :=
  .foldlM fun c _ => Coefficient.movable_putSigned h c

theorem movable_putPiece (p : Piece) : Movable fun w => putPiece h w p := by
  cases p with
  | polynomial order coefficients =>
    have hrest : Movable fun w => putCoefficients h w
        (coefficients.toList.take (order.toNat + 1)) := movable_putCoefficients h _
    refine (movable_putUnsignedCode 0).bind (.bindValue fun coded => ?_)
    refine (movable_putUnsignedCode coded).bind (.ite ?_ ?_)
    · exact (movable_putFlag false).bind hrest
    · exact Movable.pure.bind hrest
  | mmr order constant rows =>
    refine (movable_putUnsignedCode 1).bind (.bindValue fun coded => ?_)
    refine (movable_put 2 coded).bind ((Coefficient.movable_putSigned h constant).bind ?_)
    exact .foldlM fun row _ => movable_putCoefficients h row.toList

theorem movable_putNlqMethod (m : Mapping) : Movable fun w => putNlqMethod h w m := by
  unfold putNlqMethod
  cases m.nlqMethod with
  | none => exact .pure
  | some method => exact (movable_put 3 method.code).bind (movable_putDeltas _ _ _)

theorem movable_putNlq (n : Nlq) : Movable fun w => putNlq h w n := by
  unfold putNlq
  refine .bindValue fun limit => .ite .throw ((movable_put _ _).bind ?_)
  refine (Coefficient.movable_putUnsigned h _).bind ((Coefficient.movable_putUnsigned h _).bind ?_)
  exact Coefficient.movable_putUnsigned h _

theorem movable_putPieces (m : Mapping) :
    Movable fun w => m.curves.toList.foldlM (putPieces h) w :=
  .foldlM fun _ _ => .foldlM fun p _ => movable_putPiece h p

/-- The parameters of the inverse quantization, if there is one. -/
theorem movable_putNlqs (m : Mapping) : Movable fun w =>
    if m.nlqMethod.isSome then m.nlq.toList.foldlM (putNlq h) w else Pure.pure w :=
  .ite (.foldlM fun n _ => movable_putNlq h n) .pure

/-- **A mapping can be written everywhere or nowhere**, and takes the same bits everywhere. -/
theorem movable_put (m : Mapping) : Movable fun w => put h w m := by
  unfold put
  refine (movable_putUnsignedCode _).bind ((movable_putUnsignedCode _).bind ?_)
  refine .bind (.foldlM fun c _ => movable_putCurvePivots h c) ?_
  refine (movable_putNlqMethod h m).bind (.bindValue fun partitionsX => ?_)
  refine (movable_putUnsignedCode partitionsX).bind (.bindValue fun partitionsY => ?_)
  refine (movable_putUnsignedCode partitionsY).bind ?_
  exact (movable_putPieces h m).bind (movable_putNlqs h m)

/-! ### Lengths -/

variable {h : Header} {w w' : Writer}

/-- Each pivot takes the bits of its difference. -/
theorem length_putDeltas {width : Nat} {previous : UInt16} {pivots : List UInt16}
    (hput : putDeltas w width previous pivots = .ok w') :
    w'.written.length = w.written.length + width * pivots.length := by
  induction pivots generalizing w previous with
  | nil =>
    obtain rfl := Except.ok.inj hput
    rfl
  | cons pivot pivots ih =>
    obtain ⟨-, -, w₁, hdelta, hrest⟩ := putDeltas_cons hput
    rw [ih hrest, (Writer.written_of_put hdelta).2, List.length_append, length_toBits,
      List.length_cons, Nat.mul_succ]
    omega

/-- The pivots of a curve take a byte or more. -/
theorem length_putCurvePivots_ge {c : Curve} (hvalid : h.Valid)
    (hput : putCurvePivots h w c = .ok w') : w.written.length + 8 ≤ w'.written.length := by
  obtain ⟨count, hcount, hput⟩ := Checked.ok_of_bind hput
  obtain ⟨htwo, rfl⟩ := Checked.sub_eq_ok hcount
  obtain ⟨w₁, hcode, hdeltas⟩ := Checked.ok_of_bind hput
  have hdepth := (Header.isBitDepth_iff.1 hvalid.baseLayer).1
  have hbits := Nat.mul_le_mul hdepth htwo
  rw [length_putDeltas hdeltas, Writer.written_of_putUnsignedCode hcode, List.length_append]
  omega

/-- The pivots of several curves take a byte or more. -/
theorem length_putCurves_ge {curves : List Curve} (hvalid : h.Valid) (hne : curves ≠ [])
    (hput : curves.foldlM (putCurvePivots h) w = .ok w') :
    w.written.length + 8 ≤ w'.written.length := by
  obtain ⟨c, curves, rfl⟩ := List.exists_cons_of_ne_nil hne
  rw [List.foldlM_cons] at hput
  obtain ⟨w₁, hfirst, hrest⟩ := Checked.ok_of_bind hput
  have hstart := Movable.start (.foldlM fun c _ => movable_putCurvePivots h c) hrest
  exact (length_putCurvePivots_ge hvalid hfirst).trans hstart.length_le

/-- **A mapping takes a byte or more.** -/
theorem length_put_ge {m : Mapping} (hvalid : h.Valid) (hput : put h w m = .ok w') :
    w.written.length + 8 ≤ w'.written.length := by
  have hne : m.curves.toList ≠ [] := by
    rw [← List.length_pos_iff, Vector.length_toList]
    decide
  obtain ⟨w₁, hcolor, hput⟩ := Checked.ok_of_bind hput
  obtain ⟨w₂, hchroma, hput⟩ := Checked.ok_of_bind hput
  obtain ⟨w₃, hcurves, hput⟩ := Checked.ok_of_bind hput
  obtain ⟨w₄, hmethod, hput⟩ := Checked.ok_of_bind hput
  obtain ⟨partitionsX, -, hput⟩ := Checked.ok_of_bind hput
  obtain ⟨w₅, hpartitionsX, hput⟩ := Checked.ok_of_bind hput
  obtain ⟨partitionsY, -, hput⟩ := Checked.ok_of_bind hput
  obtain ⟨w₆, hpartitionsY, hput⟩ := Checked.ok_of_bind hput
  obtain ⟨w₇, hpieces, hnlqs⟩ := Checked.ok_of_bind hput
  have hpivots := length_putCurves_ge hvalid hne hcurves
  -- No other part goes back behind where its writer was.
  have h₁ := ((movable_putUnsignedCode _).start hcolor).length_le
  have h₂ := ((movable_putUnsignedCode _).start hchroma).length_le
  have h₄ := ((movable_putNlqMethod h m).start hmethod).length_le
  have h₅ := ((movable_putUnsignedCode partitionsX).start hpartitionsX).length_le
  have h₆ := ((movable_putUnsignedCode partitionsY).start hpartitionsY).length_le
  have h₇ := ((movable_putPieces h m).start hpieces).length_le
  have h₈ := ((movable_putNlqs h m).start hnlqs).length_le
  omega

end Mapping

end DolbyVision
