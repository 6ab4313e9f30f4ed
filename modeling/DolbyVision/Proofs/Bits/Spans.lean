/-
**How many bits a read takes.**

The fields of a fixed layout take as many bits as the layout has, whatever the bits are.
`Spans n p` says so of a read: whenever it succeeds, `n` bits less are left.  Nothing is said of its
value, which is the subject of `Run.Gives`, and nothing of a read that fails.

Main definitions:

* `DolbyVision.Bits.Spans` — the relation of a read and the number of bits that it takes.

Main results:

* `DolbyVision.Bits.Spans.bind`, `Spans.check`, `Spans.ite` — the rules for computations;
* `DolbyVision.Bits.spans_u8`, `spans_u16`, `spans_i16`, `spans_flag`, `spans_skip` — single fields;
* `DolbyVision.Bits.spans_times` — **repeated items take as many times the bits of one**.
-/

import DolbyVision.Bits.Words
import DolbyVision.Proofs.Bits.Exhausted

set_option relaxedAutoImplicit false
set_option autoImplicit false

namespace DolbyVision.Bits

/-- Whenever the read `p` succeeds, it has taken `n` bits. -/
def Spans {α : Type} (n : Nat) (p : BitParser α) : Prop :=
  ∀ r a r', r.Sound → p r = .ok a r' → r'.Sound ∧ r.unread.length = n + r'.unread.length

/-! ### Rules -/

section Rules

variable {α β : Type} {n m : Nat} {p q : BitParser α} {f : α → BitParser β} {c : Prop} [Decidable c]
  {fault : Fault}

theorem Spans.congr (h : Spans n p) (hn : n = m) : Spans m p := hn ▸ h

theorem Spans.pure (a : α) : Spans 0 (Pure.pure a : BitParser α) := by
  intro r a' r' hsound hrun
  cases hrun
  exact ⟨hsound, (Nat.zero_add _).symm⟩

/-- A computation without a reader takes nothing. -/
theorem Spans.ofExcept (x : Except Fault α) : Spans 0 (liftM x : BitParser α) := by
  intro r a r' hsound hrun
  cases x with
  | error fault => cases hrun
  | ok a' => exact Spans.pure a' r a r' hsound hrun

/-- Reads that follow one another take the bits of both. -/
theorem Spans.bind (h₁ : Spans n p) (h₂ : ∀ a, Spans m (f a)) : Spans (n + m) (p >>= f) := by
  intro r b r' hsound hrun
  obtain ⟨a, r₁, hfirst, hrest⟩ := Run.ok_of_bind hrun
  obtain ⟨hsound₁, hlength₁⟩ := h₁ r a r₁ hsound hfirst
  obtain ⟨hsound', hlength⟩ := h₂ a r₁ b r' hsound₁ hrest
  exact ⟨hsound', by rw [hlength₁, hlength, Nat.add_assoc]⟩

/-- A value that is computed from what is read. -/
theorem Spans.map (h : Spans n p) (g : α → β) : Spans n (g <$> p) := by
  rw [map_eq_pure_bind]
  exact (h.bind fun a => .pure (g a)).congr (Nat.add_zero n)

/-- What follows a check may rely on it. -/
theorem Spans.check {g : Unit → BitParser β} (h : ¬ c → Spans n (g ())) :
    Spans n (if c then (throw fault : BitParser Unit) >>= g else g ()) := by
  intro r b r' hsound hrun
  obtain ⟨hc, hrest⟩ := Run.ok_of_check hrun
  exact h hc r b r' hsound hrest

/-- A read that is chosen by a condition takes as many bits as the one that is chosen. -/
theorem Spans.ite (h₁ : Spans n p) (h₂ : Spans m q) :
    Spans (if c then n else m) (if c then p else q) := by
  by_cases hc : c
  · rwa [if_pos hc, if_pos hc]
  · rwa [if_neg hc, if_neg hc]

end Rules

/-! ### Fields -/

/-- A read that takes the next bits, or fails, has taken them if it succeeds. -/
theorem Reader.Takes.spans {α : Type} {p : BitParser α} {n : Nat} {k : List Bool → α}
    (hp : Reader.Takes p n k) : Spans n p := by
  intro r a r' hsound hrun
  obtain ⟨hlength, -, hsound₁, hrest₁⟩ := hp.of_ok hsound hrun
  refine ⟨hsound₁, ?_⟩
  rw [hrest₁, List.length_drop, Nat.add_sub_cancel' hlength]

section Fields

variable {width : Nat}

theorem spans_bits32 (h32 : width ≤ 32) : Spans width (Reader.bits32 width) :=
  (Reader.takes_bits32 h32).spans

theorem spans_flag : Spans 1 Reader.flag :=
  Reader.takes_flag.spans

theorem spans_skip (n : Nat) : Spans n (Reader.skip n) :=
  (Reader.takes_skip n).spans

theorem spans_u8 (h32 : width ≤ 32) : Spans width (Reader.u8 width) :=
  (spans_bits32 h32).bind fun _ => .pure _

theorem spans_u16 (h32 : width ≤ 32) : Spans width (Reader.u16 width) :=
  (spans_bits32 h32).bind fun _ => .pure _

theorem spans_i16 (h32 : width ≤ 32) : Spans width (Reader.i16 width) :=
  ((spans_bits32 h32).bind fun _ => .ofExcept _).bind fun _ => .pure _

end Fields

/-- **Repeated items take as many times the bits of one.** -/
theorem spans_times {α : Type} {width : Nat} {item : BitParser α} (hitem : Spans width item)
    (n : Nat) : Spans (width * n) (Reader.times n item) := by
  induction n with
  | zero => exact .pure #v[]
  | succ n ih => exact ih.bind fun _ => hitem.bind fun _ => .pure _

end DolbyVision.Bits
