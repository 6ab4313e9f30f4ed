/-
**What a read gives, whatever it starts from.**

The value of a read lies in the range that its width or its code allows, even if nothing is known of
the reader.  Checks and writes rely on these ranges: a field that was read fits in the bits from
which it was read.

Main results:

* `DolbyVision.Bits.gives_bits`, `gives_bits32`, `gives_u8`, `gives_u16`, `gives_i16` — **a field
  fits in its bits**;
* `DolbyVision.Bits.gives_unsignedCode`, `gives_signedCode` — **a number that was read from a code
  has one**;
* `DolbyVision.Bits.gives_list`, `gives_times` — what holds of each item holds of all.
-/

import DolbyVision.Proofs.Bits.Reads

set_option relaxedAutoImplicit false
set_option autoImplicit false

namespace DolbyVision.Bits

open Run

/-! ### Fields of a fixed width -/

/-- The upper bits of a word, shifted down, are a number of as many bits. -/
theorem shiftRight_lt (word : UInt64) {n width : Nat} (hpos : 0 < n) (hn : n ≤ width)
    (h64 : width ≤ 64) : (word >>> UInt64.ofNat (64 - n)).toNat < 2 ^ width := by
  have hword := word.toNat_lt
  have hsum : 2 ^ n * 2 ^ (64 - n) = 2 ^ 64 := by rw [← pow_add, Nat.add_sub_cancel' (by omega)]
  have hquotient : word.toNat / 2 ^ (64 - n) < 2 ^ n := by
    rw [Nat.div_lt_iff_lt_mul (Nat.two_pow_pos _), hsum]
    exact hword
  rw [Reader.toNat_shiftRight_sub word hpos]
  exact lt_of_lt_of_le hquotient (Nat.pow_le_pow_right (by decide) hn)

/-- Bits that are put together from caches stay a number of the wanted width. -/
theorem gather_lt {r r' : Reader} {width wanted n : Nat} {value value' : UInt64}
    (h64 : width ≤ 64) (hwanted : wanted ≤ width) (hvalue : value.toNat < 2 ^ width)
    (hrun : Reader.gather wanted value r = .ok (n, value') r') : value'.toNat < 2 ^ width := by
  fun_induction Reader.gather wanted value r with
  | case1 wanted value r hle =>
    cases hrun
    exact hvalue
  | case2 wanted value r hle fault hsub => cases hrun
  | case3 wanted value r hle rest hsub hnil => cases hrun
  | case4 wanted value r hle rest hsub hne hlt fault hamount => cases hrun
  | case5 wanted value r hle rest hsub hne hlt amount hamount ih =>
    obtain ⟨hrest, rfl⟩ := Checked.sub_eq_ok hsub
    obtain ⟨hpos, hle64, rfl⟩ := Reader.amountAbove_eq_ok hamount
    refine ih (by omega) ?_ hrun
    rw [UInt64.toNat_or]
    exact Nat.or_lt_two_pow hvalue (shiftRight_lt _ (by omega) (by omega) h64)

/-- **A field fits in its bits.** -/
theorem gives_bits (width : Nat) : Gives (Reader.bits width) (· < 2 ^ width) := by
  unfold Reader.bits
  refine .ite (fun hzero => .pure ?_) fun hpos => ?_
  · rw [hzero]
    decide
  · intro r value r' hrun
    obtain ⟨amount, r₁, hamount, hrun⟩ := ok_of_bind hrun
    have h64 : 0 < width ∧ width ≤ 64 ∧ amount = 64 - width :=
      Gives.ofExcept (fun _ habove => Reader.amountAbove_eq_ok habove) _ _ _ hamount
    obtain ⟨-, h64, rfl⟩ := h64
    obtain ⟨r₂, r₃, hget, hrun⟩ := ok_of_bind hrun
    obtain ⟨⟨n, word⟩, r₄, hgather, hrun⟩ := ok_of_bind hrun
    obtain ⟨⟨⟩, r₅, -, hrun⟩ := ok_of_bind hrun
    cases hrun
    exact gather_lt h64 le_rfl (shiftRight_lt _ (by omega) le_rfl h64) hgather

/-- **A field of up to 32 bits fits in them**, too. -/
theorem gives_bits32 (width : Nat) : Gives (Reader.bits32 width) (· < 2 ^ width) := by
  intro r value r' hrun
  obtain ⟨rest, r₀, hrest, hrun⟩ := ok_of_bind hrun
  have h32 : width ≤ 32 ∧ rest = 32 - width :=
    Gives.ofExcept (fun _ hsub => Checked.sub_eq_ok hsub) _ _ _ hrest
  obtain ⟨h32, rfl⟩ := h32
  obtain ⟨amount, r₁, hamount, hrun⟩ := ok_of_bind hrun
  have hsame : 32 - width < 64 ∧ amount = 32 - width :=
    Gives.ofExcept (fun _ hshift => Checked.shiftAmount_eq_ok hshift) _ _ _ hamount
  obtain ⟨-, rfl⟩ := hsame
  obtain ⟨r₂, r₃, hget, hrun⟩ := ok_of_bind hrun
  obtain ⟨⟨n, word⟩, r₄, hgather, hrun⟩ := ok_of_bind hrun
  obtain ⟨⟨⟩, r₅, -, hrun⟩ := ok_of_bind hrun
  cases hrun
  have hstart : (r₂.cache >>> 32 >>> UInt64.ofNat (32 - width)).toNat < 2 ^ width := by
    have hsum : 2 ^ width * 2 ^ (64 - width) = 2 ^ 64 := by
      rw [← pow_add, Nat.add_sub_cancel' (by omega)]
    rw [Reader.toNat_shiftRight_twice _ h32, Nat.div_lt_iff_lt_mul (Nat.two_pow_pos _), hsum]
    exact r₂.cache.toNat_lt
  have hword := gather_lt (by omega) le_rfl hstart hgather
  rw [UInt64.toNat_toUInt32]
  exact lt_of_le_of_lt (Nat.mod_le ..) hword

theorem gives_u8 (width : Nat) : Gives (Reader.u8 width) fun v => v.toNat < 2 ^ width := by
  refine .bind (gives_bits32 width) fun n hn => .pure ?_
  rw [UInt8.toNat_ofNat']
  exact lt_of_le_of_lt (Nat.mod_le ..) hn

theorem gives_u16 (width : Nat) : Gives (Reader.u16 width) fun v => v.toNat < 2 ^ width := by
  refine .bind (gives_bits32 width) fun n hn => .pure ?_
  rw [UInt16.toNat_ofNat']
  exact lt_of_le_of_lt (Nat.mod_le ..) hn

/-- A two's complement field gives an integer of its width. -/
theorem gives_i16 {width : Nat} (h16 : width < 16) :
    Gives (Reader.i16 (width + 1)) fun v =>
      -(2 ^ width : Nat) ≤ v.toInt ∧ v.toInt < (2 ^ width : Nat) := by
  refine .bind (Q := fun n => -(2 ^ width : Nat) ≤ n ∧ n < (2 ^ width : Nat)) ?_
    fun n hn => .pure ?_
  · refine .bind (gives_bits32 _) fun value hvalue => .ofExcept fun n hn => ?_
    rw [Reader.extended_eq (by omega) (by omega) hvalue] at hn
    obtain rfl := Except.ok.inj hn
    have hpow : ((2 ^ (width + 1) : Nat) : Int) = 2 * (2 ^ width : Nat) := by
      rw [pow_succ]
      push_cast
      ring
    have hpos : (0 : Int) < (2 ^ width : Nat) := by positivity
    constructor
    · have hlo := Int.le_bmod (x := (value : Int)) (m := 2 ^ (width + 1)) (Nat.two_pow_pos _)
      omega
    · have hhi := Int.bmod_lt (x := (value : Int)) (m := 2 ^ (width + 1)) (Nat.two_pow_pos _)
      omega
  · have hle : (2 ^ width : Nat) ≤ 2 ^ 15 := Nat.pow_le_pow_right (by decide) (by omega)
    have hword : (Int16.ofInt n).toInt = n := by
      refine Int16.toInt_ofInt_of_le ?_ ?_ <;> omega
    rwa [hword]

/-! ### Exp-Golomb codes -/

theorem within_eq_ok {width n m : Nat} (h : Checked.within width n = .ok m) :
    n < 2 ^ width ∧ m = n := by
  have hfit := Checked.within_eq_ok h
  rwa [Nat.one_shiftLeft] at hfit

/-- The magnitude of a signed code has 31 bits. -/
theorem within_magnitude {code : Nat} (hcode : code ≤ maxCode) :
    Checked.within 31 (code / 2 + code % 2) = .ok (code / 2 + code % 2) := by
  refine Checked.within_of_lt ?_
  unfold maxCode at hcode
  rw [Nat.one_shiftLeft]
  omega

/-- **A number that was read from a code has one.** -/
theorem gives_unsignedCode : Gives Reader.unsignedCode (· ≤ maxCode) := by
  refine .after fun zeros => .check fun hzeros => ?_
  refine .bind (gives_bits32 zeros) fun suffix hsuffix => ?_
  refine .ofExcept fun n hn => ?_
  rw [Reader.codeValue_eq (Nat.not_lt.1 hzeros) hsuffix] at hn
  obtain rfl := Except.ok.inj hn
  have hpow : 2 ^ zeros ≤ 2 ^ 31 := Nat.pow_le_pow_right (by decide) (by omega)
  unfold maxCode
  omega

theorem gives_signedCode : Gives Reader.signedCode fun n => n.natAbs < 2 ^ 31 := by
  refine .after fun code => .bind (.ofExcept fun _ h => within_eq_ok h) fun magnitude hm => .pure ?_
  split <;> omega

/-! ### Repeated items -/

section Repeated

variable {α : Type} {item : BitParser α} {P : α → Prop}

/-- What holds of each item holds of all items of a list. -/
theorem gives_list (hitem : Gives item P) (n : Nat) :
    Gives (Reader.list n item) fun items => items.length = n ∧ ∀ a ∈ items, P a := by
  induction n with
  | zero => exact .pure ⟨rfl, fun _ ha => absurd ha List.not_mem_nil⟩
  | succ n ih =>
    refine .bind hitem fun first hfirst => .bind ih fun items hitems => .pure ?_
    exact ⟨by rw [List.length_cons, hitems.1], List.forall_mem_cons.2 ⟨hfirst, hitems.2⟩⟩

/-- What holds of each item holds of all items of a vector. -/
theorem gives_times (hitem : Gives item P) (n : Nat) :
    Gives (Reader.times n item) fun items => ∀ a ∈ items.toList, P a := by
  induction n with
  | zero => exact .pure fun _ ha => absurd ha List.not_mem_nil
  | succ n ih =>
    refine .bind ih fun items hitems => .bind hitem fun last hlast => .pure ?_
    intro a ha
    rw [Vector.toList_push, List.mem_append, List.mem_singleton] at ha
    rcases ha with ha | rfl
    · exact hitems a ha
    · exact hlast

end Repeated

end DolbyVision.Bits
