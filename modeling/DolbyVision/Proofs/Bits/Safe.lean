/-
**Reads that come upon no defect.**

A read is *safe* if it comes upon no defect; it may rely on a sound reader in front of fewer than
`2 ^ 32` bits, and it leaves a sound reader in front of no more bits than before.  Both halves are
needed for composing reads, and `Safe.bind` composes them.

The counters of a reader are words of 32 bits, which is where the bound on the bits comes from: a
run of zeros is counted before its end is known.

Main definitions:

* `DolbyVision.Bits.Ready` — the states from which a read may rely on its reader;
* `DolbyVision.Bits.Safe` — the property of reads.

Main results:

* `DolbyVision.Bits.Safe.bind`, `Safe.bindGives`, `Safe.check`, `Safe.measured` — the rules for
  computations;
* `DolbyVision.Bits.safe_bits`, `safe_bits32`, `safe_flag`, `safe_skip`, `safe_unary`,
  `safe_realign` — **the reads of a reader are safe**;
* `DolbyVision.Bits.safe_unsignedCode`, `safe_signedCode` — **so are Exp-Golomb codes**.
-/

import DolbyVision.Proofs.Checked
import DolbyVision.Proofs.Bits.Exhausted
import DolbyVision.Proofs.Bits.Values

set_option relaxedAutoImplicit false
set_option autoImplicit false

namespace DolbyVision.Bits

open ReadingState Run

/-! ### The property -/

section Rules

variable {σ α β : Type} [ReadingState σ]

/-- A sound reader in front of fewer bits than its counters can count. -/
structure Ready (s : σ) : Prop where
  sound : (reader s).Sound
  length_lt : (reader s).unread.length < 2 ^ 32

/-- A read that comes upon no defect, and leaves no more bits than there were. -/
structure Safe (p : EStateM Fault σ α) : Prop where
  ok : ∀ s a s', Ready s → p s = .ok a s' →
    (reader s').Sound ∧ (reader s').unread.length ≤ (reader s).unread.length
  error : ∀ s fault s', Ready s → p s = .error fault s' → ¬ fault.IsDefect

variable {p q : EStateM Fault σ α} {f : α → EStateM Fault σ β} {Q : α → Prop} {s s' : σ} {a : α}
  {c : Prop} [Decidable c] {fault : Fault}

theorem Safe.ready (h : Safe p) (hs : Ready s) (hrun : p s = .ok a s') : Ready s' := by
  obtain ⟨hsound, hle⟩ := h.ok s a s' hs hrun
  exact ⟨hsound, lt_of_le_of_lt hle hs.length_lt⟩

theorem Safe.pure (a : α) : Safe (Pure.pure a : EStateM Fault σ α) where
  ok := by
    intro s a' s' hs hrun
    cases hrun
    exact ⟨hs.sound, le_rfl⟩
  error := by
    intro s fault s' _ hrun
    cases hrun

theorem Safe.throw (hfault : ¬ fault.IsDefect) :
    Safe (MonadExcept.throw fault : EStateM Fault σ α) where
  ok := by
    intro s a s' _ hrun
    cases hrun
  error := by
    intro s fault' s' _ hrun
    cases hrun
    exact hfault

/-- Nothing follows a fault. -/
theorem Safe.stop (hfault : ¬ fault.IsDefect) :
    Safe ((MonadExcept.throw fault : EStateM Fault σ α) >>= f) where
  ok := by
    intro s a s' _ hrun
    cases hrun
  error := by
    intro s fault' s' _ hrun
    cases hrun
    exact hfault

/-- What follows a safe read starts from what that leaves, and may rely on what is known of the
value. -/
theorem Safe.bindGives (h₁ : Safe p) (hQ : Gives p Q) (h₂ : ∀ a, Q a → Safe (f a)) :
    Safe (p >>= f) where
  ok := by
    intro s b s' hs hrun
    obtain ⟨a, s₁, hfirst, hrest⟩ := ok_of_bind hrun
    obtain ⟨-, hle⟩ := h₁.ok s a s₁ hs hfirst
    obtain ⟨hsound', hle'⟩ :=
      (h₂ a (hQ s a s₁ hfirst)).ok s₁ b s' (h₁.ready hs hfirst) hrest
    exact ⟨hsound', hle'.trans hle⟩
  error := by
    intro s fault s' hs hrun
    cases hfirst : p s with
    | error fault' s₁ =>
      rw [bind_error hfirst] at hrun
      cases hrun
      exact h₁.error s fault s' hs hfirst
    | ok a s₁ =>
      rw [bind_ok hfirst] at hrun
      exact (h₂ a (hQ s a s₁ hfirst)).error s₁ fault s' (h₁.ready hs hfirst) hrun

theorem Safe.bind (h₁ : Safe p) (h₂ : ∀ a, Safe (f a)) : Safe (p >>= f) :=
  h₁.bindGives (Q := fun _ => True) (fun _ _ _ _ => trivial) fun a _ => h₂ a

theorem Safe.map (h : Safe p) (g : α → β) : Safe (g <$> p) := by
  rw [← bind_pure_comp]
  exact h.bind fun a => .pure (g a)

theorem Safe.ite (h₁ : c → Safe p) (h₂ : ¬ c → Safe q) : Safe (if c then p else q) := by
  by_cases hc : c
  · rw [if_pos hc]
    exact h₁ hc
  · rw [if_neg hc]
    exact h₂ hc

/-- What follows a check may rely on it. -/
theorem Safe.check {g : Unit → EStateM Fault σ β} (hfault : ¬ fault.IsDefect)
    (h : ¬ c → Safe (g ())) :
    Safe (if c then (MonadExcept.throw fault : EStateM Fault σ Unit) >>= g else g ()) :=
  .ite (fun _ => .stop hfault) h

/-- A first read that is chosen by a condition. -/
theorem Safe.bindIf (h₁ : c → Safe p) (h₂ : ¬ c → Safe q) (h : ∀ a, Safe (f a)) :
    Safe (if c then p >>= f else q >>= f) :=
  .ite (fun hc => (h₁ hc).bind h) fun hc => (h₂ hc).bind h

/-- A computation without a reader that comes upon no defect is safe. -/
theorem Safe.ofExcept {x : Except Fault α} (h : Checked.Clean x) :
    Safe (liftM x : EStateM Fault σ α) where
  ok := by
    intro s a s' hs hrun
    cases hx : x with
    | error fault =>
      rw [hx] at hrun
      cases hrun
    | ok a' =>
      rw [hx] at hrun
      cases hrun
      exact ⟨hs.sound, le_rfl⟩
  error := by
    intro s fault s' _ hrun
    cases hx : x with
    | error fault' =>
      rw [hx] at hrun
      cases hrun
      exact h fault hx
    | ok a =>
      rw [hx] at hrun
      cases hrun

/-- A computation without a reader that succeeds hands its value to what follows. -/
theorem Safe.bindOk {x : Except Fault α} (hx : x = .ok a) (h : Safe (f a)) :
    Safe ((liftM x : EStateM Fault σ α) >>= f) := by
  subst hx
  exact h

theorem Safe.ofOk {x : Except Fault α} (hx : x = .ok a) : Safe (liftM x : EStateM Fault σ α) := by
  subst hx
  exact .pure a

end Rules

/-! ### Reads that depend on the position -/

section Positions

variable {α β : Type}

/-- A read is safe if, in front of any bits, it succeeds or fails without a defect. -/
theorem Safe.ofReader {p : BitParser α}
    (h : ∀ r : Reader, r.Sound → r.unread.length < 2 ^ 32 →
      (∃ a r', p r = .ok a r' ∧ r'.Sound ∧ r'.unread.length ≤ r.unread.length) ∨
        ∃ fault r', p r = .error fault r' ∧ ¬ fault.IsDefect) : Safe p where
  ok := by
    intro r a r' hr hrun
    rcases h r hr.sound hr.length_lt with ⟨a', r₁, hok, hsound, hle⟩ | ⟨fault, r₁, herror, -⟩
    · rw [hok] at hrun
      cases hrun
      exact ⟨hsound, hle⟩
    · rw [herror] at hrun
      cases hrun
  error := by
    intro r fault r' hr hrun
    rcases h r hr.sound hr.length_lt with ⟨a, r₁, hok, -⟩ | ⟨fault', r₁, herror, hfault⟩
    · rw [hok] at hrun
      cases hrun
    · rw [herror] at hrun
      cases hrun
      exact hfault

theorem Ready.bitsLeft_eq {r : Reader} (hr : Ready r) : r.bitsLeft = r.unread.length :=
  Reader.Loaded.bitsLeft_eq hr.sound.toLoaded

theorem Ready.bitsLeft_lt {r : Reader} (hr : Ready r) : r.bitsLeft < 2 ^ 32 := by
  rw [hr.bitsLeft_eq]
  exact hr.length_lt

/-- A safe read leaves no more bits than there were. -/
theorem Safe.bitsLeft_le {p : BitParser α} {r r' : Reader} {a : α} (hp : Safe p) (hr : Ready r)
    (hrun : p r = .ok a r') : r'.bitsLeft ≤ r.bitsLeft := by
  rw [hr.bitsLeft_eq, (hp.ready hr hrun).bitsLeft_eq]
  exact (hp.ok r a r' hr hrun).2

/-- What a read does with its reader may rely on how few bits are left. -/
theorem Safe.bindGet {f : Reader → BitParser α} (h : ∀ r, r.bitsLeft < 2 ^ 32 → Safe (f r)) :
    Safe (get >>= f) where
  ok := fun r a r' hr hrun => (h r hr.bitsLeft_lt).ok r a r' hr hrun
  error := fun r fault r' hr hrun => (h r hr.bitsLeft_lt).error r fault r' hr hrun

/-- **A read may be measured**: no more bits are left behind it than in front of it. -/
theorem Safe.measured {p : BitParser α} {f : Nat → α → Nat → BitParser β} (hp : Safe p)
    (h : ∀ before a after, after ≤ before → Safe (f before a after)) :
    Safe (get >>= fun r => p >>= fun a => get >>= fun r' => f r.bitsLeft a r'.bitsLeft) where
  ok := by
    intro r b r' hr hrun
    rw [bind_ok get_ok] at hrun
    obtain ⟨a, r₁, hfirst, hrest⟩ := ok_of_bind hrun
    rw [bind_ok get_ok] at hrest
    have hrest := (h _ a _ (hp.bitsLeft_le hr hfirst)).ok r₁ b r' (hp.ready hr hfirst) hrest
    exact ⟨hrest.1, hrest.2.trans (hp.ok r a r₁ hr hfirst).2⟩
  error := by
    intro r fault r' hr hrun
    rw [bind_ok get_ok] at hrun
    cases hfirst : p r with
    | error fault' r₁ =>
      rw [bind_error hfirst] at hrun
      cases hrun
      exact hp.error r fault r' hr hfirst
    | ok a r₁ =>
      rw [bind_ok hfirst, bind_ok get_ok] at hrun
      exact (h _ a _ (hp.bitsLeft_le hr hfirst)).error r₁ fault r' (hp.ready hr hfirst) hrun

end Positions

/-! ### The reads of a reader -/

/-- A read that takes the next bits is safe. -/
theorem Reader.Takes.safe {α : Type} {p : BitParser α} {n : Nat} {k : List Bool → α}
    (hp : Reader.Takes p n k) : Safe p := by
  refine Safe.ofReader fun r hsound _ => ?_
  by_cases hlen : n ≤ r.unread.length
  · obtain ⟨r', hrun, hsound', hrest⟩ := hp.eq r hsound hlen
    exact Or.inl ⟨_, r', hrun, hsound', by rw [hrest, List.length_drop]; omega⟩
  · obtain ⟨r', hrun⟩ := hp.short r hsound (Nat.not_le.1 hlen)
    exact Or.inr ⟨_, r', hrun, not_false⟩

/-- **A read of a fixed width is safe.** -/
theorem safe_bits {width : Nat} (h64 : width ≤ 64) : Safe (Reader.bits width) :=
  (Reader.takes_bits h64).safe

theorem safe_bits32 {width : Nat} (h32 : width ≤ 32) : Safe (Reader.bits32 width) :=
  (Reader.takes_bits32 h32).safe

theorem safe_flag : Safe Reader.flag :=
  Reader.takes_flag.safe

theorem safe_u8 {width : Nat} (h32 : width ≤ 32) : Safe (Reader.u8 width) :=
  (safe_bits32 h32).bind fun _ => .pure _

theorem safe_u16 {width : Nat} (h32 : width ≤ 32) : Safe (Reader.u16 width) :=
  (safe_bits32 h32).bind fun _ => .pure _

theorem safe_u32 {width : Nat} (h32 : width ≤ 32) : Safe (Reader.u32 width) :=
  (safe_bits32 h32).bind fun _ => .pure _

theorem safe_i16 {width : Nat} (h32 : width ≤ 32) : Safe (Reader.i16 width) := by
  have hsigned : Safe (Reader.signed32 width) :=
    (safe_bits32 h32).bind fun value => .ofExcept (.ofExists (Reader.exists_extended h32 value))
  exact hsigned.bind fun _ => .pure _

/-- **Skipping bits is safe.** -/
theorem safe_skip (n : Nat) : Safe (Reader.skip n) :=
  (Reader.takes_skip n).safe

/-- **Moving to a boundary is safe.** -/
theorem safe_realign : Safe Reader.realign := by
  refine Safe.ofReader fun r hsound _ => ?_
  obtain ⟨r', hrun, hsound', hrest⟩ := Reader.realign_eq hsound
  exact Or.inl ⟨_, r', hrun, hsound', by rw [hrest, List.length_drop]; omega⟩

/-- **A unary number is safe**: its zeros are fewer than a counter can count. -/
theorem safe_unary : Safe Reader.unary := by
  refine Safe.ofReader fun r hsound hlt => ?_
  rcases zeros_or_run r.unread with hzeros | ⟨z, tail, hrun⟩
  · obtain ⟨r', hrun⟩ := Reader.unary_short hsound hzeros hlt
    exact Or.inr ⟨_, r', hrun, not_false⟩
  · have hlength : r.unread.length = z + (tail.length + 1) := by simp [hrun]
    obtain ⟨r', hrun', hsound', hrest⟩ := Reader.unary_eq hsound hrun (by omega)
    exact Or.inl ⟨z, r', hrun', hsound', by rw [hrest]; omega⟩

/-! ### Exp-Golomb codes -/

/-- **An Exp-Golomb code is safe**: what it stands for fits in a word. -/
theorem safe_unsignedCode : Safe Reader.unsignedCode := by
  refine safe_unary.bind fun zeros => .check not_false fun hzeros => ?_
  refine (safe_bits32 (by omega)).bindGives (gives_bits32 zeros) fun suffix hsuffix => ?_
  exact Safe.ofOk (Reader.codeValue_eq (Nat.not_lt.1 hzeros) hsuffix)

theorem safe_signedCode : Safe Reader.signedCode := by
  refine safe_unsignedCode.bindGives gives_unsignedCode fun code hcode => ?_
  exact Safe.bindOk (within_magnitude hcode) (.pure _)

/-! ### Repeated items -/

section Repeated

variable {α : Type} {item : BitParser α}

theorem safe_list (hitem : Safe item) (n : Nat) : Safe (Reader.list n item) := by
  induction n with
  | zero => exact .pure []
  | succ n ih => exact hitem.bind fun _ => ih.bind fun _ => .pure _

theorem safe_times (hitem : Safe item) (n : Nat) : Safe (Reader.times n item) := by
  induction n with
  | zero => exact .pure #v[]
  | succ n ih => exact ih.bind fun _ => hitem.bind fun _ => .pure _

end Repeated

end DolbyVision.Bits
