/-
**What a reader does when its bits run out.**

A read of a fixed width and a move fail exactly if they want more bits than are left, and a unary
number fails exactly if no set bit is left; the fault is always `Fault.unexpectedEnd`.  Together
with the reads that succeed (`Reader.bits_eq`, `Reader.skip_eq`, `Reader.unary_eq`) this settles
what a sound reader does in front of any bits.

Main definitions:

* `DolbyVision.Bits.Reader.Takes` — reads that take a number of bits, or fail.

Main results:

* `DolbyVision.Bits.Reader.bits_short`, `bits32_short`, `flag_short`, `skip_short` — **a read of
  more bits than are left fails**;
* `DolbyVision.Bits.Reader.takes_bits`, `takes_bits32`, `takes_flag`, `takes_skip` — what the reads
  of a fixed width and the moves do in front of any bits;
* `DolbyVision.Bits.Reader.unary_short` — **a unary number without an end fails**;
* `DolbyVision.Bits.zeros_or_run` — bits are zeros throughout, or a run of zeros in front of a set
  bit.
-/

import DolbyVision.Proofs.Bits.Unread

set_option relaxedAutoImplicit false
set_option autoImplicit false

namespace DolbyVision.Bits

/-- Bits are zeros throughout, or a run of zeros in front of a set bit. -/
theorem zeros_or_run (bits : List Bool) :
    bits = List.replicate bits.length false ∨
      ∃ z tail, bits = List.replicate z false ++ true :: tail := by
  induction bits with
  | nil => exact Or.inl rfl
  | cons b bits ih =>
    cases b with
    | true => exact Or.inr ⟨0, bits, rfl⟩
    | false =>
      rcases ih with hzeros | ⟨z, tail, hrun⟩
      · exact Or.inl (congrArg (false :: ·) hzeros)
      · exact Or.inr ⟨z + 1, tail, congrArg (false :: ·) hrun⟩

namespace Reader

variable {r : Reader}

/-! ### Reads of a fixed width -/

/-- A field that is not there as a whole uses up all caches. -/
theorem gather_short (h : r.Loaded) {width : Nat} (h64 : width ≤ 64) (value : UInt64)
    (hshort : r.unread.length < width) :
    ∃ r', gather width value r = .error .unexpectedEnd r' := by
  fun_induction gather width value r with
  | case1 width value r hle =>
    rw [h.length_unread] at hshort
    omega
  | case2 width value r hle fault hsub =>
    rw [Checked.sub_of_le (by omega)] at hsub
    cases hsub
  | case3 width value r hle wanted hsub hnil => exact ⟨r, rfl⟩
  | case4 width value r hle wanted hsub hne hlt fault hamount =>
    obtain ⟨hwidth, rfl⟩ := Checked.sub_eq_ok hsub
    rw [amountAbove_eq (by omega) (by omega)] at hamount
    cases hamount
  | case5 width value r hle wanted hsub hne hlt amount hamount ih =>
    obtain ⟨hwidth, rfl⟩ := Checked.sub_eq_ok hsub
    refine ih loaded_fetched (by omega) ?_
    rw [h.unread_fetched, List.length_drop]
    have hleft : r.left ≤ r.unread.length := by rw [h.length_unread]; omega
    omega

/-- **A read of more bits than are left fails.** -/
theorem bits_short (h : r.Sound) {width : Nat} (h64 : width ≤ 64)
    (hshort : r.unread.length < width) : ∃ r', bits width r = .error .unexpectedEnd r' := by
  obtain ⟨r', hgather⟩ :=
    gather_short h.toLoaded h64 (r.cache >>> UInt64.ofNat (64 - width)) hshort
  have hpos : 0 < width := by omega
  refine ⟨r', ?_⟩
  unfold bits
  rw [if_neg hpos.ne', Run.bind_ok (Run.lift_ok (amountAbove_eq hpos h64)),
    Run.bind_ok Run.get_ok, Run.bind_error hgather]

theorem bits32_short (h : r.Sound) {width : Nat} (h32 : width ≤ 32)
    (hshort : r.unread.length < width) : ∃ r', bits32 width r = .error .unexpectedEnd r' := by
  obtain ⟨r', hgather⟩ :=
    gather_short h.toLoaded (by omega) (r.cache >>> 32 >>> UInt64.ofNat (32 - width)) hshort
  have hamount : Checked.shiftAmount 64 (32 - width) = .ok (32 - width) :=
    Checked.shiftAmount_of_lt (by omega)
  refine ⟨r', ?_⟩
  unfold bits32
  rw [Run.bind_ok (Run.lift_ok (Checked.sub_of_le h32)), Run.bind_ok (Run.lift_ok hamount),
    Run.bind_ok Run.get_ok, Run.bind_error hgather]

/-- **There is no bit behind the last one.** -/
theorem flag_short (h : r.Sound) (hnil : r.unread = []) : flag r = .error .unexpectedEnd r := by
  have hlength := h.length_unread
  rw [hnil, List.length_nil] at hlength
  have hrest : r.rest = [] := List.length_eq_zero_iff.1 (by omega)
  have hfetch : fetch r = .error .unexpectedEnd r := if_pos hrest
  unfold flag
  rw [Run.bind_ok Run.get_ok, if_pos (by omega), Run.bind_error hfetch]

/-! ### Moves -/

theorem seek_short (h : r.Loaded) {n : Nat} (hshort : r.unread.length < n) :
    ∃ r', seek n r = .error .unexpectedEnd r' := by
  fun_induction seek n r with
  | case1 n r hle =>
    rw [h.length_unread] at hshort
    omega
  | case2 n r hle fault hsub =>
    rw [Checked.sub_of_le (by omega)] at hsub
    cases hsub
  | case3 n r hle rest hsub hnil => exact ⟨r, rfl⟩
  | case4 n r hle rest hsub hne hlt ih =>
    obtain ⟨hn, rfl⟩ := Checked.sub_eq_ok hsub
    refine ih loaded_fetched ?_
    rw [h.unread_fetched, List.length_drop]
    have hleft : r.left ≤ r.unread.length := by rw [h.length_unread]; omega
    omega

/-- **Skipping more bits than are left fails.** -/
theorem skip_short (h : r.Sound) {n : Nat} (hshort : r.unread.length < n) :
    ∃ r', skip n r = .error .unexpectedEnd r' := by
  obtain ⟨r', hseek⟩ := seek_short h.toLoaded hshort
  have hlt : r.left < n := by rw [h.length_unread] at hshort; omega
  refine ⟨r', ?_⟩
  unfold skip
  rw [Run.bind_ok Run.get_ok, if_neg (by omega), Run.bind_error hseek]

/-! ### Reads that take a number of bits -/

/-- A read takes the next `n` bits, of which it gives `k`, or fails if there are not as many. -/
structure Takes {α : Type} (p : BitParser α) (n : Nat) (k : List Bool → α) : Prop where
  eq : ∀ r : Reader, r.Sound → n ≤ r.unread.length →
    ∃ r', p r = .ok (k (r.unread.take n)) r' ∧ r'.Sound ∧ r'.unread = r.unread.drop n
  short : ∀ r : Reader, r.Sound → r.unread.length < n → ∃ r', p r = .error .unexpectedEnd r'

/-- If such a read succeeds, the bits were there, and it has taken them. -/
theorem Takes.of_ok {α : Type} {p : BitParser α} {n : Nat} {k : List Bool → α} {a : α} {r' : Reader}
    (hp : Takes p n k) (h : r.Sound) (hrun : p r = .ok a r') :
    n ≤ r.unread.length ∧ a = k (r.unread.take n) ∧ r'.Sound ∧ r'.unread = r.unread.drop n := by
  have hlength : n ≤ r.unread.length := by
    by_contra hshort
    obtain ⟨r₁, hfails⟩ := hp.short r h (Nat.lt_of_not_le hshort)
    rw [hfails] at hrun
    cases hrun
  obtain ⟨r₁, hok, hsound, hrest⟩ := hp.eq r h hlength
  rw [hok] at hrun
  cases hrun
  exact ⟨hlength, rfl, hsound, hrest⟩

theorem takes_bits {width : Nat} (h64 : width ≤ 64) : Takes (bits width) width ofBits where
  eq _ hsound hlen := bits_eq hsound h64 hlen
  short _ hsound hshort := bits_short hsound h64 hshort

theorem takes_bits32 {width : Nat} (h32 : width ≤ 32) : Takes (bits32 width) width ofBits where
  eq _ hsound hlen := bits32_eq hsound h32 hlen
  short _ hsound hshort := bits32_short hsound h32 hshort

theorem takes_skip (n : Nat) : Takes (skip n) n fun _ => () where
  eq _ hsound hlen := skip_eq hsound hlen
  short _ hsound hshort := skip_short hsound hshort

theorem takes_flag : Takes flag 1 (· == [true]) where
  eq r hsound hlen := by
    obtain ⟨b, tail, hunread⟩ := List.exists_cons_of_length_pos hlen
    obtain ⟨r', hrun, hsound', htail⟩ := flag_eq hsound hunread
    refine ⟨r', ?_, hsound', by rw [hunread, htail]; rfl⟩
    rw [hrun, hunread]
    cases b <;> rfl
  short r hsound hshort := by
    have hnil : r.unread = [] := List.length_eq_zero_iff.1 (by omega)
    exact ⟨r, flag_short hsound hnil⟩

/-! ### Runs of zeros -/

/-- A cache of zeros has only zeros at its top. -/
theorem left_le_leadingZeros_of_zeros (h : r.Loaded)
    (hzeros : r.unread = List.replicate r.unread.length false) :
    r.left ≤ leadingZeros r.cache := by
  have htake : r.unread.take r.left = List.replicate r.left false := by
    have hleft : r.left ≤ r.unread.length := by rw [h.length_unread]; omega
    rw [hzeros, List.take_replicate, Nat.min_eq_left (by simpa using hleft)]
  have hzero : r.cache.toNat = 0 := by
    rw [h.cache_eq, loadedValue, ← h.ofBits_take le_rfl, htake, ofBits_replicate_false,
      Nat.zero_mul]
  have hcache : r.cache = 0 := UInt64.toNat_inj.1 hzero
  rw [leadingZeros, if_pos hcache]
  exact h.left_le

/-- If only zeros are left, all of them are counted before the bits run out. -/
theorem countZeros_short (h : r.Loaded) (count : Nat)
    (hzeros : r.unread = List.replicate r.unread.length false)
    (hfit : count + r.unread.length < 2 ^ 32) :
    ∃ r', countZeros count r = .error .unexpectedEnd r' := by
  induction hn : r.rest.length using Nat.strong_induction_on generalizing r count with
  | _ n ih =>
    subst hn
    have hlength := h.length_unread
    have hleading := left_le_leadingZeros_of_zeros h hzeros
    have hadd : Checked.add 32 count r.left = .ok (count + r.left) :=
      Checked.within_of_lt (by rw [Nat.one_shiftLeft]; omega)
    rw [countZeros]
    simp only [Nat.not_lt.2 hleading, if_false, hadd]
    by_cases hnil : r.rest = []
    · rw [dif_pos hnil]
      exact ⟨r, rfl⟩
    · rw [dif_neg hnil]
      have hfetched : r.fetched.unread.length = r.unread.length - r.left := by
        rw [h.unread_fetched, List.length_drop]
      refine ih _ (length_rest_fetched_lt hnil) loaded_fetched _ ?_ (by omega) rfl
      rw [hfetched, h.unread_fetched, hzeros, List.drop_replicate, List.length_replicate]

/-- **A unary number without an end fails.** -/
theorem unary_short (h : r.Sound) (hzeros : r.unread = List.replicate r.unread.length false)
    (hfit : r.unread.length < 2 ^ 32) : ∃ r', unary r = .error .unexpectedEnd r' :=
  countZeros_short h.toLoaded 0 hzeros (by omega)

end Reader

end DolbyVision.Bits
