/-
**What a read accepts.**

A read that succeeds has taken some bits off the front of what stood before it.  `Recognizes p G`
says which: whenever `p` succeeds, the bits that it has taken and the value that it gives are
related by `G`, and in front of any bits that `G` relates to a value it takes those bits and gives
that value.  So `G` is the syntax of what `p` accepts, without a reader, and what stands behind it
is left alone.

The relation of a read that is put together from others is put together from theirs: a value and
what follows it stand one behind the other, a check is a condition on the value, and a test whether
enough bits are left for what follows is none at all.

Main definitions:

* `DolbyVision.Bits.Recognizes` — the relation.

Main results:

* `DolbyVision.Bits.Recognizes.bind`, `Recognizes.check`, `Recognizes.room` — the rules for
  computations;
* `DolbyVision.Bits.recognizes_bits`, `recognizes_flag`, `recognizes_bytes` — single fields and byte
  strings;
* `DolbyVision.Bits.Recognizes.ok_iff` — **what is accepted at the start of a byte string**.
-/

import DolbyVision.Proofs.Bits.Reads

set_option relaxedAutoImplicit false
set_option autoImplicit false

namespace DolbyVision.Bits

/-- The read `p` accepts the bits of which `G` says that they stand for a value, and no others. -/
structure Recognizes {α : Type} (p : BitParser α) (G : List Bool → α → Prop) : Prop where
  /-- What was taken stands for the value that it gave. -/
  sound : ∀ r a r', r.Sound → p r = .ok a r' →
    r'.Sound ∧ ∃ bits, r.unread = bits ++ r'.unread ∧ G bits a
  /-- What stands for a value is taken and gives it, whatever follows. -/
  complete : ∀ bits a, G bits a → ∀ rest, Reads p bits rest a

section Rules

variable {α β : Type} {p : BitParser α} {f : α → BitParser β} {G G' : List Bool → α → Prop}
  {H : α → List Bool → β → Prop} {fault : Fault}

/-- The syntax may be described in another way. -/
theorem Recognizes.congr (h : Recognizes p G) (hsame : ∀ bits a, G bits a ↔ G' bits a) :
    Recognizes p G' where
  sound r a r' hsound hrun := by
    obtain ⟨hsound', bits, hunread, hG⟩ := h.sound r a r' hsound hrun
    exact ⟨hsound', bits, hunread, (hsame bits a).1 hG⟩
  complete bits a hG := h.complete bits a ((hsame bits a).2 hG)

theorem Recognizes.pure (a : α) :
    Recognizes (Pure.pure a) fun bits b => bits = [] ∧ b = a where
  sound r b r' hsound hrun := by
    cases hrun
    exact ⟨hsound, [], rfl, rfl, rfl⟩
  complete bits b hG rest := by
    obtain ⟨rfl, rfl⟩ := hG
    exact Reads.pure rest b

/-- What reads take that follow one another stands one behind the other. -/
theorem Recognizes.bind (h₁ : Recognizes p G)
    (h₂ : ∀ front a, G front a → Recognizes (f a) (H a)) :
    Recognizes (p >>= f) fun bits b =>
      ∃ front back a, bits = front ++ back ∧ G front a ∧ H a back b where
  sound r b r' hsound hrun := by
    obtain ⟨a, r₁, hfirst, hrest⟩ := Run.ok_of_bind hrun
    obtain ⟨hsound₁, front, hfront, hG⟩ := h₁.sound r a r₁ hsound hfirst
    obtain ⟨hsound', back, hback, hH⟩ := (h₂ front a hG).sound r₁ b r' hsound₁ hrest
    refine ⟨hsound', front ++ back, ?_, front, back, a, rfl, hG, hH⟩
    rw [hfront, hback, List.append_assoc]
  complete bits b := by
    rintro ⟨front, back, a, rfl, hG, hH⟩ rest
    exact (h₁.complete front a hG (back ++ rest)).bind ((h₂ front a hG).complete back b hH rest)

/-- What is accepted behind a check has passed it, and may rely on it. -/
theorem Recognizes.check (c : Prop) [Decidable c] (fault : Fault) (h : ¬ c → Recognizes p G) :
    Recognizes (if c then (throw fault : BitParser Unit) >>= fun _ => p else p) fun bits a =>
      ¬ c ∧ G bits a where
  sound r a r' hsound hrun := by
    obtain ⟨hc, hrest⟩ := Run.ok_of_check hrun
    obtain ⟨hsound', bits, hunread, hG⟩ := (h hc).sound r a r' hsound hrest
    exact ⟨hsound', bits, hunread, hc, hG⟩
  complete bits a := by
    rintro ⟨hc, hG⟩ rest
    exact Reads.guard hc ((h hc).complete bits a hG rest)

/-- A test whether there are enough bits left for what follows changes nothing. -/
theorem Recognizes.room {n : Nat} {x : Except Fault Nat} {g : Unit → BitParser α} (hx : x = .ok n)
    (h : Recognizes (g ()) G) (hlong : ∀ bits a, G bits a → n ≤ bits.length) :
    Recognizes (get >>= fun r : Reader => (liftM x : BitParser Nat) >>= fun m : Nat =>
      if r.bitsLeft < m then (throw fault : BitParser Unit) >>= g else g ()) G where
  sound r a r' hsound hrun := by
    rw [Run.bind_ok Run.get_ok, Run.bind_ok (Run.lift_ok hx)] at hrun
    exact h.sound r a r' hsound (Run.ok_of_check hrun).2
  complete bits a hG rest := by
    refine Reads.ofReader fun r hsound hunread => ?_
    have hleft : ¬ r.bitsLeft < n := by
      have hn := hlong bits a hG
      rw [hsound.toLoaded.bitsLeft_eq, hunread, List.length_append]
      omega
    rw [Run.bind_ok Run.get_ok, Run.bind_ok (Run.lift_ok hx), if_neg hleft]
    exact h.complete bits a hG rest r hsound hunread

/-- **What is accepted at the start of a byte string.** -/
theorem Recognizes.ok_iff (h : Recognizes p G) (bytes : List UInt8) (a : α) :
    (∃ r, p (Reader.ofBytes bytes) = .ok a r) ↔
      ∃ bits rest, ofBytes bytes = bits ++ rest ∧ G bits a := by
  constructor
  · rintro ⟨r, hrun⟩
    obtain ⟨-, bits, hunread, hG⟩ := h.sound _ a r (Reader.sound_ofBytes bytes) hrun
    exact ⟨bits, r.unread, by rw [← Reader.unread_ofBytes, hunread], hG⟩
  · rintro ⟨bits, rest, hbytes, hG⟩
    obtain ⟨r, hrun, -, -⟩ := h.complete bits a hG rest _ (Reader.sound_ofBytes bytes)
      ((Reader.unread_ofBytes bytes).trans hbytes)
    exact ⟨r, hrun⟩

end Rules

/-! ### Fields -/

/-- A read that takes a number of bits accepts any bits of that number. -/
theorem Reader.Takes.recognizes {α : Type} {p : BitParser α} {n : Nat} {k : List Bool → α}
    (hp : Reader.Takes p n k) : Recognizes p fun bits a => bits.length = n ∧ a = k bits where
  sound r a r' hsound hrun := by
    obtain ⟨hlength, rfl, hsound', hrest⟩ := hp.of_ok hsound hrun
    refine ⟨hsound', r.unread.take n, ?_, ?_, rfl⟩
    · rw [hrest, List.take_append_drop]
    · rw [List.length_take, Nat.min_eq_left hlength]
  complete bits a := by
    rintro ⟨hlength, rfl⟩ rest
    exact Reads.ofTakes hp hlength

/-- Bits of a given number are the spelling of one number, which fits. -/
theorem eq_ofBits_iff {width n : Nat} {bits : List Bool} :
    (bits.length = width ∧ n = ofBits bits) ↔ n < 2 ^ width ∧ bits = toBits width n := by
  constructor
  · rintro ⟨rfl, rfl⟩
    exact ⟨ofBits_lt bits, (toBits_ofBits bits).symm⟩
  · rintro ⟨hn, rfl⟩
    exact ⟨length_toBits .., (ofBits_toBits_of_lt hn).symm⟩

section Fields

variable {width : Nat}

theorem recognizes_bits (h64 : width ≤ 64) :
    Recognizes (Reader.bits width) fun bits n => n < 2 ^ width ∧ bits = toBits width n :=
  (Reader.takes_bits h64).recognizes.congr fun _ _ => eq_ofBits_iff

theorem recognizes_bits32 (h32 : width ≤ 32) :
    Recognizes (Reader.bits32 width) fun bits n => n < 2 ^ width ∧ bits = toBits width n :=
  (Reader.takes_bits32 h32).recognizes.congr fun _ _ => eq_ofBits_iff

theorem recognizes_flag : Recognizes Reader.flag fun bits b => bits = [b] := by
  refine Reader.takes_flag.recognizes.congr fun bits b => ?_
  constructor
  · rintro ⟨hlength, rfl⟩
    obtain ⟨b, rfl⟩ := List.length_eq_one_iff.1 hlength
    cases b <;> rfl
  · rintro rfl
    cases b <;> exact ⟨rfl, rfl⟩

theorem recognizes_byte : Recognizes (Reader.u8 8) fun bits b => bits = toBits 8 b.toNat := by
  have hread := (recognizes_bits32 (show 8 ≤ 32 by decide)).bind
    fun _ n _ => Recognizes.pure (UInt8.ofNat n)
  refine hread.congr fun bits b => ?_
  constructor
  · rintro ⟨front, back, n, rfl, ⟨hn, rfl⟩, rfl, rfl⟩
    rw [List.append_nil, UInt8.toNat_ofNat', Nat.mod_eq_of_lt hn]
  · rintro rfl
    exact ⟨_, [], b.toNat, (List.append_nil _).symm, ⟨b.toNat_lt, rfl⟩, rfl,
      UInt8.ofNat_toNat.symm⟩

/-- **Bytes are read as they stand.** -/
theorem recognizes_bytes (n : Nat) :
    Recognizes (Reader.list n (Reader.u8 8)) fun bits bytes =>
      bytes.length = n ∧ bits = ofBytes bytes := by
  induction n with
  | zero =>
    refine (Recognizes.pure []).congr fun bits bytes => ?_
    rw [List.length_eq_zero_iff, and_comm]
    exact and_congr_right fun hbytes => by rw [hbytes, ofBytes_nil]
  | succ n ih =>
    refine (recognizes_byte.bind fun _ b _ => ih.bind fun _ bytes _ =>
      Recognizes.pure (b :: bytes)).congr fun bits bytes => ?_
    constructor
    · rintro ⟨_, _, b, rfl, rfl, _, _, bytes, rfl, ⟨rfl, rfl⟩, rfl, rfl⟩
      exact ⟨rfl, by rw [List.append_nil, ofBytes_cons]⟩
    · rintro ⟨hlength, rfl⟩
      obtain ⟨b, bytes, rfl⟩ := List.exists_cons_of_length_eq_add_one hlength
      exact ⟨_, _, b, ofBytes_cons b bytes, rfl, _, [], bytes, (List.append_nil _).symm,
        ⟨Nat.succ.inj hlength, rfl⟩, rfl, rfl⟩

end Fields

end DolbyVision.Bits
