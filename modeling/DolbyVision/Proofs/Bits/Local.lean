/-
**Reads do not depend on what they leave.**

A read is *local* if it would have gone the same way in front of any other bits: it takes the same
bits, gives the same value and leaves whatever stands behind them.  Most reads are.  A move to a
byte boundary and a look at the number of bits that are left depend on how much stands behind them,
but on nothing else of it; they are local among strings of one length.

A read that fails is not spoken of: it may have failed because its bits ran out.

Main definitions:

* `DolbyVision.Bits.Local` — the property of reads, for strings of any length or of one length.

Main results:

* `DolbyVision.Bits.Local.bind`, `Local.ite`, `Local.check`, `Local.measured` — the rules for
  computations;
* `DolbyVision.Bits.Reader.unary_ok` — **a unary number that is read has an end**, and few enough
  zeros to be counted;
* `DolbyVision.Bits.local_bits`, `local_flag`, `local_skip`, `local_unary`, `local_realign` — **the
  reads of a reader are local**.
-/

import DolbyVision.Proofs.Bits.Reads
import DolbyVision.Proofs.Bits.Values

set_option relaxedAutoImplicit false
set_option autoImplicit false

namespace DolbyVision.Bits

open ReadingState

/-! ### The property -/

section Rules

variable {σ α β : Type} [ReadingState σ]

/-- A read that succeeds takes some bits, and would go the same way if the same bits stood in front
of others; if it is `sized`, in front of as many others. -/
def Local (sized : Prop) (p : EStateM Fault σ α) : Prop :=
  ∀ s a s', (reader s).Sound → p s = .ok a s' →
    (reader s').Sound ∧ ∃ bits, (reader s).unread = bits ++ (reader s').unread ∧
      ∀ rest, (sized → rest.length = (reader s').unread.length) →
        ∀ r : Reader, r.Sound → r.unread = bits ++ rest →
          ∃ r', p (withReader s r) = .ok a (withReader s' r') ∧ r'.Sound ∧ r'.unread = rest

variable {sized : Prop} {p q : EStateM Fault σ α} {f : α → EStateM Fault σ β} {c : Prop}
  [Decidable c] {fault : Fault}

theorem Local.pure (a : α) : Local sized (Pure.pure a : EStateM Fault σ α) := by
  intro s a' s' hsound hrun
  cases hrun
  exact ⟨hsound, [], rfl, fun rest _ r hr hunread => ⟨r, rfl, hr, hunread⟩⟩

theorem Local.throw : Local sized (MonadExcept.throw fault : EStateM Fault σ α) := by
  intro s a s' _ hrun
  cases hrun

/-- Nothing follows a fault. -/
theorem Local.stop : Local sized ((MonadExcept.throw fault : EStateM Fault σ α) >>= f) := by
  intro s b s' _ hrun
  cases hrun

theorem Local.bind (h₁ : Local sized p) (h₂ : ∀ a, Local sized (f a)) : Local sized (p >>= f) := by
  intro s b s' hsound hrun
  obtain ⟨a, s₁, hfirst, hrest⟩ := Run.ok_of_bind hrun
  obtain ⟨hsound₁, bits₁, hunread₁, hsame₁⟩ := h₁ s a s₁ hsound hfirst
  obtain ⟨hsound', bits₂, hunread₂, hsame₂⟩ := h₂ a s₁ b s' hsound₁ hrest
  refine ⟨hsound', bits₁ ++ bits₂, by rw [hunread₁, hunread₂, List.append_assoc], ?_⟩
  intro rest hlength r hr hunread
  -- What stands behind the first read is what the second one takes, and then the rest.
  have hlength₁ : sized → (bits₂ ++ rest).length = (reader s₁).unread.length := by
    intro hsized
    rw [hunread₂, List.length_append, List.length_append, hlength hsized]
  obtain ⟨r₁, hrun₁, hr₁, hleft₁⟩ :=
    hsame₁ (bits₂ ++ rest) hlength₁ r hr (by rw [hunread, List.append_assoc])
  obtain ⟨r', hrun', hr', hleft'⟩ := hsame₂ rest hlength r₁ hr₁ hleft₁
  exact ⟨r', by rw [Run.bind_ok hrun₁, hrun'], hr', hleft'⟩

theorem Local.map (h : Local sized p) (g : α → β) : Local sized (g <$> p) := by
  rw [map_eq_pure_bind]
  exact h.bind fun a => .pure (g a)

theorem Local.ite (h₁ : c → Local sized p) (h₂ : ¬ c → Local sized q) :
    Local sized (if c then p else q) := by
  by_cases hc : c
  · rw [if_pos hc]
    exact h₁ hc
  · rw [if_neg hc]
    exact h₂ hc

/-- What follows a check may rely on it. -/
theorem Local.check {g : Unit → EStateM Fault σ β} (h : ¬ c → Local sized (g ())) :
    Local sized (if c then (MonadExcept.throw fault : EStateM Fault σ Unit) >>= g else g ()) :=
  .ite (fun _ => .stop) h

/-- A first read that is chosen by a condition. -/
theorem Local.bindIf (h₁ : c → Local sized p) (h₂ : ¬ c → Local sized q)
    (h : ∀ a, Local sized (f a)) : Local sized (if c then p >>= f else q >>= f) :=
  .ite (fun hc => (h₁ hc).bind h) fun hc => (h₂ hc).bind h

/-- A computation without a reader takes nothing. -/
theorem Local.ofExcept (x : Except Fault α) : Local sized (liftM x : EStateM Fault σ α) := by
  cases x with
  | error fault => exact .throw
  | ok a => exact .pure a

end Rules

/-! ### Reads of a reader -/

section Reader

variable {sized : Prop} {α β : Type}

/-- The property for reads of a reader alone. -/
theorem Local.ofReader {p : BitParser α}
    (h : ∀ r a r', r.Sound → p r = .ok a r' →
      ∃ bits, r.unread = bits ++ r'.unread ∧ r'.Sound ∧
        ∀ rest, (sized → rest.length = r'.unread.length) →
          ∀ v : Reader, v.Sound → v.unread = bits ++ rest →
            ∃ v', p v = .ok a v' ∧ v'.Sound ∧ v'.unread = rest) : Local sized p := by
  intro r a r' hsound hrun
  obtain ⟨bits, hunread, hsound', hsame⟩ := h r a r' hsound hrun
  exact ⟨hsound', bits, hunread, hsame⟩

/-- How much a reader has taken shows in the number of bits that are left. -/
theorem Reader.length_taken {bytes : List UInt8} {bits : List Bool} {r : Reader}
    (hsplit : Bits.ofBytes bytes = bits ++ r.unread) (hr : r.Sound) :
    8 * bytes.length - r.bitsLeft = bits.length := by
  rw [hr.toLoaded.bitsLeft_eq, ← length_ofBytes, hsplit, List.length_append, Nat.add_sub_cancel]

/-- A read that takes a number of bits is local. -/
theorem Reader.Takes.isLocal {p : BitParser α} {n : Nat} {k : List Bool → α}
    (hp : Reader.Takes p n k) : Local sized p := by
  refine .ofReader fun r a r' hsound hrun => ?_
  obtain ⟨hlength, rfl, hsound₁, hrest₁⟩ := hp.of_ok hsound hrun
  have htaken : (r.unread.take n).length = n := by rw [List.length_take, Nat.min_eq_left hlength]
  refine ⟨r.unread.take n, by rw [hrest₁, List.take_append_drop], hsound₁, ?_⟩
  intro rest _ v hv hunread
  obtain ⟨v', hok', hv', hrest'⟩ := hp.eq v hv (by rw [hunread, List.length_append, htaken]; omega)
  rw [hunread, List.take_left' htaken] at hok'
  rw [hunread, List.drop_left' htaken] at hrest'
  exact ⟨v', hok', hv', hrest'⟩

/-- **A read of a fixed width is local**; a width that no word has is refused. -/
theorem local_bits (width : Nat) : Local sized (Reader.bits width) := by
  by_cases h64 : width ≤ 64
  · exact (Reader.takes_bits h64).isLocal
  · unfold Reader.bits
    rw [if_neg (by omega)]
    have hamount : Reader.amountAbove width = .error (.defect .negativeDifference) := by
      unfold Reader.amountAbove
      rw [Checked.sub, if_neg h64]
      rfl
    rw [hamount]
    exact .stop

theorem local_bits32 (width : Nat) : Local sized (Reader.bits32 width) := by
  by_cases h32 : width ≤ 32
  · exact (Reader.takes_bits32 h32).isLocal
  · unfold Reader.bits32
    have hsub : Checked.sub 32 width = .error (.defect .negativeDifference) := if_neg h32
    rw [hsub]
    exact .stop

theorem local_flag : Local sized Reader.flag :=
  Reader.takes_flag.isLocal

/-- **A move is local.** -/
theorem local_skip (n : Nat) : Local sized (Reader.skip n) :=
  (Reader.takes_skip n).isLocal

theorem local_u8 (width : Nat) : Local sized (Reader.u8 width) :=
  (local_bits32 width).bind fun _ => .pure _

theorem local_u16 (width : Nat) : Local sized (Reader.u16 width) :=
  (local_bits32 width).bind fun _ => .pure _

theorem local_u32 (width : Nat) : Local sized (Reader.u32 width) :=
  (local_bits32 width).bind fun _ => .pure _

theorem local_i16 (width : Nat) : Local sized (Reader.i16 width) :=
  ((local_bits32 width).bind fun _ => .ofExcept _).bind fun _ => .pure _

/-- **A move to a boundary is local** among strings of one length, which the boundaries depend
on. -/
theorem local_realign : Local True Reader.realign := by
  refine .ofReader fun r a r' hsound hrun => ?_
  obtain ⟨r₁, hok, hsound₁, hrest₁⟩ := Reader.realign_eq hsound
  rw [hok] at hrun
  cases hrun
  have hmod : r.unread.length % 8 ≤ r.unread.length := Nat.mod_le ..
  refine ⟨r.unread.take (r.unread.length % 8), by rw [hrest₁, List.take_append_drop], hsound₁, ?_⟩
  intro rest hlength v hv hunread
  have hsame : v.unread.length = r.unread.length := by
    rw [hunread, List.length_append, hlength trivial, hrest₁, List.length_take, List.length_drop]
    omega
  obtain ⟨v', hok', hv', hrest'⟩ := Reader.realign_eq hv
  rw [hsame, hunread, List.drop_left' (by rw [List.length_take]; omega)] at hrest'
  exact ⟨v', hok', hv', hrest'⟩

/-- What follows may rely on the number of bits that are left, among strings of one length. -/
theorem Local.measure {f : Nat → BitParser β} (h : ∀ n, Local True (f n)) :
    Local True (get >>= fun r : Reader => f r.bitsLeft) := by
  intro r b r' hsound hrun
  obtain ⟨hsound', bits, hunread, hsame⟩ := h r.bitsLeft r b r' hsound hrun
  refine ⟨hsound', bits, hunread, fun rest hlength v hv hunreadv => ?_⟩
  have hr : r.Sound := hsound
  have hbits : r.unread = bits ++ r'.unread := hunread
  have hrest : rest.length = r'.unread.length := hlength trivial
  have hleft : v.bitsLeft = r.bitsLeft := by
    rw [hv.toLoaded.bitsLeft_eq, hr.toLoaded.bitsLeft_eq, hunreadv, hbits, List.length_append,
      List.length_append, hrest]
  obtain ⟨v', hok, hv'⟩ := hsame rest hlength v hv hunreadv
  refine ⟨v', ?_, hv'⟩
  rw [← hleft] at hok
  exact hok

/-- What follows a read may rely on the number of bits that it takes. -/
theorem Local.measured {p : BitParser α} {f : Nat → α → Nat → BitParser β} (hp : Local True p)
    (h : ∀ before a after, Local True (f before a after)) :
    Local True (get >>= fun r => p >>= fun a => get >>= fun r' =>
      f r.bitsLeft a r'.bitsLeft) := by
  refine .measure (f := fun before => p >>= fun a => get >>= fun r' => f before a r'.bitsLeft)
    fun before => hp.bind fun a => ?_
  exact .measure fun after => h before a after

end Reader

/-! ### Codes -/

namespace Reader

variable {r r' : Reader} {n : Nat}

/-- If no set bit is found in the cache, the cache holds only zeros. -/
theorem take_left_of_le (h : r.Loaded) (hzeros : r.left ≤ leadingZeros r.cache) :
    r.unread.take r.left = List.replicate r.left false := by
  have hlength : r.left ≤ r.unread.length := by rw [h.length_unread]; omega
  rcases zeros_or_run r.unread with hall | ⟨z, tail, hunread⟩
  · rw [hall, List.take_replicate, Nat.min_eq_left hlength]
  · have hz : r.left ≤ z := by
      by_contra hlt
      rw [leadingZeros_eq h hunread (Nat.lt_of_not_le hlt)] at hzeros
      exact hlt hzeros
    rw [hunread, List.take_append_of_le_length (by simpa using hz), List.take_replicate,
      Nat.min_eq_left hz]

/-- A set bit that is found in the cache is the next one. -/
theorem exists_run_of_lt (h : r.Loaded) (hzeros : leadingZeros r.cache < r.left) :
    ∃ tail, r.unread = List.replicate (leadingZeros r.cache) false ++ true :: tail := by
  rcases zeros_or_run r.unread with hall | ⟨z, tail, hunread⟩
  · exact absurd (left_le_leadingZeros_of_zeros h hall) (Nat.not_le.2 hzeros)
  · have hz : z < r.left := by
      by_contra hle
      exact absurd (left_le_leadingZeros h hunread (Nat.not_lt.1 hle)) (Nat.not_le.2 hzeros)
    exact ⟨tail, by rw [leadingZeros_eq h hunread hz, hunread]⟩

/-- A run of zeros that was counted has an end, and the counter has room for it. -/
theorem countZeros_ok (h : r.Loaded) (count : Nat) (hrun : countZeros count r = .ok n r') :
    ∃ z tail, r.unread = List.replicate z false ++ true :: tail ∧ count + z < 2 ^ 32 := by
  induction hn : r.rest.length using Nat.strong_induction_on generalizing r count with
  | _ m ih =>
    subst hn
    rw [countZeros] at hrun
    dsimp only at hrun
    split at hrun
    · case isTrue hzeros =>
      obtain ⟨tail, hunread⟩ := exists_run_of_lt h hzeros
      obtain ⟨-, r₁, -, hrun⟩ := Run.ok_of_bind hrun
      obtain ⟨-, r₂, -, hrun⟩ := Run.ok_of_bind hrun
      have hadd : Checked.add 32 count (leadingZeros r.cache) = .ok n :=
        Run.Gives.ofExcept (fun _ hok => hok) _ _ _ hrun
      exact ⟨_, tail, hunread, (within_eq_ok hadd).1⟩
    · case isFalse hzeros =>
      split at hrun
      · cases hrun
      · case h_2 count' hadd =>
        obtain ⟨-, rfl⟩ := within_eq_ok hadd
        split at hrun
        · cases hrun
        · case isFalse hne =>
          obtain ⟨z, tail, hunread, hfit⟩ :=
            ih _ (length_rest_fetched_lt hne) loaded_fetched _ hrun rfl
          -- The zeros of the cache stand in front of those that were counted behind it.
          have hsplit := List.take_append_drop r.left r.unread
          rw [take_left_of_le h (Nat.not_lt.1 hzeros), ← h.unread_fetched, hunread,
            ← List.append_assoc, List.replicate_append_replicate] at hsplit
          exact ⟨r.left + z, tail, hsplit.symm, by omega⟩

/-- **A unary number that is read has an end**, and few enough zeros to be counted. -/
theorem unary_ok (h : r.Sound) (hrun : unary r = .ok n r') :
    ∃ tail, r.unread = List.replicate n false ++ true :: tail ∧ n < 2 ^ 32 ∧ r'.Sound ∧
      r'.unread = tail := by
  obtain ⟨z, tail, hunread, hfit⟩ := countZeros_ok h.toLoaded 0 hrun
  rw [Nat.zero_add] at hfit
  obtain ⟨r₁, hok, hsound, hrest⟩ := unary_eq h hunread hfit
  rw [hok] at hrun
  cases hrun
  exact ⟨tail, hunread, hfit, hsound, hrest⟩

end Reader

variable {sized : Prop}

/-- **A unary number is local**: it ends with its set bit. -/
theorem local_unary : Local sized Reader.unary := by
  refine .ofReader fun r z r' hsound hrun => ?_
  obtain ⟨tail, hunread, hfit, hsound', hrest⟩ := Reader.unary_ok hsound hrun
  refine ⟨List.replicate z false ++ [true], by rw [hunread, hrest, List.append_assoc]; rfl,
    hsound', fun rest _ v hv hunreadv => ?_⟩
  rw [List.append_assoc] at hunreadv
  exact Reader.unary_eq hv hunreadv hfit

theorem local_unsignedCode : Local sized Reader.unsignedCode :=
  local_unary.bind fun zeros => .check fun _ => (local_bits32 zeros).bind fun _ => .ofExcept _

theorem local_signedCode : Local sized Reader.signedCode :=
  local_unsignedCode.bind fun _ => (Local.ofExcept _).bind fun _ => .pure _

/-! ### Repeated items -/

section Repeated

variable {α : Type} {item : BitParser α}

theorem local_list (hitem : Local sized item) (n : Nat) : Local sized (Reader.list n item) := by
  induction n with
  | zero => exact .pure []
  | succ n ih => exact hitem.bind fun _ => ih.bind fun _ => .pure _

theorem local_times (hitem : Local sized item) (n : Nat) : Local sized (Reader.times n item) := by
  induction n with
  | zero => exact .pure #v[]
  | succ n ih => exact ih.bind fun _ => hitem.bind fun _ => .pure _

end Repeated

end DolbyVision.Bits
