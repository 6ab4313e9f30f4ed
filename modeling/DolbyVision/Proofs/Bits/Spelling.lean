/-
**Spelling numbers in bits.**

`toBits` and `ofBits` are inverse to each other up to the width: spelling a number in `width` bits
keeps its remainder modulo `2 ^ width`, and every list of bits is the spelling of the number that it
spells.  Both respect concatenation, which is what lets a reader take a field apart and a writer put
it together at any position.

Main results:

* `DolbyVision.Bits.ofBits_toBits`, `DolbyVision.Bits.toBits_ofBits` — the two are inverse;
* `DolbyVision.Bits.ofBits_append`, `DolbyVision.Bits.toBits_add` — both respect concatenation;
* `DolbyVision.Bits.toInt_signExtend` — sign extension gives a narrow two's complement number.
-/

import DolbyVision.Bits.Basic
import Mathlib.Data.List.Induction
import Mathlib.Tactic.Ring
import Mathlib.Tactic.Linarith

set_option relaxedAutoImplicit false
set_option autoImplicit false

namespace DolbyVision.Bits

/-! ### Numbers -/

theorem ofBits_cons (b : Bool) (bits : List Bool) :
    ofBits (b :: bits) = b.toNat * 2 ^ bits.length + ofBits bits := by
  induction bits using List.reverseRecOn with
  | nil => cases b <;> rfl
  | append_singleton bits c ih =>
    rw [← List.cons_append, ofBits_append_singleton, ih, ofBits_append_singleton,
      List.length_append, List.length_singleton, pow_succ]
    ring

/-- Reading two lists one behind the other. -/
theorem ofBits_append (a b : List Bool) :
    ofBits (a ++ b) = ofBits a * 2 ^ b.length + ofBits b := by
  induction a with
  | nil => simp
  | cons c a ih =>
    rw [List.cons_append, ofBits_cons, ih, ofBits_cons, List.length_append, pow_add]
    ring

theorem ofBits_lt (bits : List Bool) : ofBits bits < 2 ^ bits.length := by
  induction bits with
  | nil => simp
  | cons b bits ih =>
    rw [ofBits_cons, List.length_cons, pow_succ]
    cases b <;> simp <;> omega

theorem ofBits_replicate_false (n : Nat) : ofBits (List.replicate n false) = 0 := by
  induction n with
  | zero => rfl
  | succ n ih => rw [List.replicate_succ, ofBits_cons, ih]; simp

/-- A number read back from its spelling is the number, as far as it fits the width. -/
theorem ofBits_toBits (width n : Nat) : ofBits (toBits width n) = n % 2 ^ width := by
  induction width with
  | zero => simp [Nat.mod_one]
  | succ width ih =>
    rw [toBits_succ, ofBits_cons, ih, length_toBits, Nat.toNat_testBit, Nat.mod_pow_succ]
    ring

theorem ofBits_toBits_of_lt {width n : Nat} (h : n < 2 ^ width) : ofBits (toBits width n) = n := by
  rw [ofBits_toBits, Nat.mod_eq_of_lt h]

/-! ### Spellings -/

/-- A spelling shows nothing of a number above its width. -/
theorem toBits_congr {width a b : Nat} (h : a % 2 ^ width = b % 2 ^ width) :
    toBits width a = toBits width b := by
  induction width with
  | zero => rfl
  | succ width ih =>
    have hbit : a.testBit width = b.testBit width := by
      have := congrArg (Nat.testBit · width) h
      simpa [Nat.testBit_mod_two_pow] using this
    have hlow : a % 2 ^ width = b % 2 ^ width := by
      have := congrArg (· % 2 ^ width) h
      simpa [Nat.mod_mod_of_dvd, pow_dvd_pow 2 (Nat.le_succ width)] using this
    rw [toBits_succ, toBits_succ, hbit, ih hlow]

@[simp] theorem toBits_mod (width n : Nat) : toBits width (n % 2 ^ width) = toBits width n :=
  toBits_congr (Nat.mod_mod n _)

/-- Every list of bits spells the number that it is read as. -/
theorem toBits_ofBits (bits : List Bool) : toBits bits.length (ofBits bits) = bits := by
  induction bits with
  | nil => rfl
  | cons b bits ih =>
    have hlt := ofBits_lt bits
    have htail : toBits bits.length (ofBits (b :: bits)) = bits := by
      conv_rhs => rw [← ih]
      refine toBits_congr ?_
      rw [ofBits_cons, Nat.mul_add_mod_self_right]
    have hhead : (ofBits (b :: bits)).testBit bits.length = b := by
      rw [ofBits_cons, Nat.mul_comm, Nat.testBit_two_pow_mul_add _ hlt]
      cases b <;> simp
    rw [List.length_cons, toBits_succ, htail, hhead]

/-- The spelling in two parts, the upper one first. -/
theorem toBits_add (a b n : Nat) : toBits (a + b) n = toBits a (n / 2 ^ b) ++ toBits b n := by
  induction a with
  | zero => simp
  | succ a ih =>
    rw [Nat.succ_add, toBits_succ, ih, toBits_succ, List.cons_append, Nat.testBit_div_two_pow]

theorem toBits_mul_two_pow (width n k : Nat) :
    toBits (width + k) (n * 2 ^ k) = toBits width n ++ List.replicate k false := by
  rw [toBits_add, Nat.mul_div_cancel _ (Nat.two_pow_pos k)]
  congr 1
  rw [toBits_congr (b := 0) (by simp)]
  induction k with
  | zero => rfl
  | succ k ih => rw [toBits_succ, ih, List.replicate_succ, Nat.zero_testBit]

@[simp] theorem toBits_zero_right (width : Nat) :
    toBits width 0 = List.replicate width false := by
  simpa using toBits_mul_two_pow 0 0 width

/-- The first bits of a spelling spell the upper part of the number. -/
theorem take_toBits {width k : Nat} (h : k ≤ width) (n : Nat) :
    (toBits width n).take k = toBits k (n / 2 ^ (width - k)) := by
  obtain ⟨d, rfl⟩ := Nat.exists_eq_add_of_le h
  rw [toBits_add, List.take_left' (length_toBits ..), Nat.add_sub_cancel_left]

/-- The last bits of a spelling spell the lower part of the number. -/
theorem drop_toBits {width k : Nat} (h : k ≤ width) (n : Nat) :
    (toBits width n).drop k = toBits (width - k) n := by
  obtain ⟨d, rfl⟩ := Nat.exists_eq_add_of_le h
  rw [toBits_add, List.drop_left' (length_toBits ..), Nat.add_sub_cancel_left]

/-- The bits of a spelling are those of the number, the highest one first. -/
theorem getElem_toBits {width n i : Nat} (h : i < (toBits width n).length) :
    (toBits width n)[i] = n.testBit (width - 1 - i) := by
  induction width generalizing i with
  | zero => cases h
  | succ width ih =>
    cases i with
    | zero => rfl
    | succ i =>
      simp only [toBits_succ, List.getElem_cons_succ]
      rw [ih]
      congr 1
      omega

/-- A sum without carries is spelled by the sums of the bits. -/
theorem toBits_xor (width a b : Nat) :
    toBits width (a ^^^ b) = List.zipWith (· ^^ ·) (toBits width a) (toBits width b) := by
  induction width with
  | zero => rfl
  | succ width ih =>
    rw [toBits_succ, toBits_succ, toBits_succ, List.zipWith_cons_cons, ih, Nat.testBit_xor]

/-! ### Two's complement -/

/-- A number moved up in its word, read as a signed number and moved back. -/
theorem bmod_mul_two_pow_div (v width k : Nat) (h : 0 < width) :
    Int.bmod ((v * 2 ^ k : Nat) : Int) (2 ^ (width + k)) / (2 ^ k : Nat) =
      Int.bmod (v : Int) (2 ^ width) := by
  obtain ⟨width, rfl⟩ := Nat.exists_eq_succ_of_ne_zero h.ne'
  have hk : (0 : Int) < (2 ^ k : Nat) := by positivity
  have hmod : ((v * 2 ^ k : Nat) : Int) % ((2 ^ (width + 1 + k) : Nat) : Int) =
      ((v % 2 ^ (width + 1) * 2 ^ k : Nat) : Int) := by
    rw [← Int.natCast_mod, pow_add 2 (width + 1) k, Nat.mul_mod_mul_right]
  have hhalf : ∀ j : Nat, (((2 ^ (j + 1) : Nat) : Int) + 1) / 2 = ((2 ^ j : Nat) : Int) := by
    intro j; rw [pow_succ]; omega
  have hsum : width + 1 + k = width + k + 1 := by omega
  rw [Int.bmod_def, Int.bmod_def, hmod, ← Int.natCast_mod]
  rw [hsum, hhalf, hhalf, ← hsum]
  have hlt : ((v % 2 ^ (width + 1) * 2 ^ k : Nat) : Int) < ((2 ^ (width + k) : Nat) : Int) ↔
      ((v % 2 ^ (width + 1) : Nat) : Int) < ((2 ^ width : Nat) : Int) := by
    rw [Int.ofNat_lt, Int.ofNat_lt, pow_add 2 width k, Nat.mul_lt_mul_right (Nat.two_pow_pos k)]
  by_cases hv : ((v % 2 ^ (width + 1) : Nat) : Int) < ((2 ^ width : Nat) : Int)
  · rw [if_pos (hlt.2 hv), if_pos hv, Int.natCast_mul, Int.mul_ediv_cancel _ hk.ne']
  · rw [if_neg (mt hlt.1 hv), if_neg hv, pow_add 2 (width + 1) k, Int.natCast_mul,
      Int.natCast_mul, ← Int.sub_mul, Int.mul_ediv_cancel _ hk.ne']

theorem signExtend_of_le {w width : Nat} (value : BitVec w) (hle : width ≤ w) :
    signExtend value width =
      .ok ((value <<< ((w - width) % w)).sshiftRight ((w - width) % w)) := by
  rw [signExtend, Checked.sub_of_le hle]
  rfl

/-- Sign extension reads the lowest `width` bits of a word as a two's complement number. -/
theorem toInt_signExtend {w : Nat} (value : BitVec w) {width : Nat} (hpos : 0 < width)
    (hle : width ≤ w) :
    BitVec.toInt <$> signExtend value width = .ok (Int.bmod (value.toNat : Int) (2 ^ width)) := by
  have hamount : (w - width) % w = w - width := Nat.mod_eq_of_lt (by omega)
  have hw : 2 ^ w = 2 ^ (width + (w - width)) := by rw [Nat.add_sub_cancel' hle]
  rw [signExtend_of_le value hle, hamount]
  refine congrArg Except.ok ?_
  rw [BitVec.toInt_sshiftRight, BitVec.toInt_shiftLeft, Nat.shiftLeft_eq, hw,
    Int.shiftRight_eq_div_pow, ← bmod_mul_two_pow_div value.toNat width (w - width) hpos]

/-- Sign extension of a number that fits the width. -/
theorem toInt_signExtend_ofNat {w value width : Nat} (hpos : 0 < width) (hle : width ≤ w)
    (hvalue : value < 2 ^ width) :
    BitVec.toInt <$> signExtend (BitVec.ofNat w value) width =
      .ok (Int.bmod (value : Int) (2 ^ width)) := by
  have hfit : value < 2 ^ w := lt_of_lt_of_le hvalue (Nat.pow_le_pow_right (by decide) hle)
  rw [toInt_signExtend _ hpos hle, BitVec.toNat_ofNat, Nat.mod_eq_of_lt hfit]

/-- A signed number that fits a width is what its lowest `width` bits spell. -/
theorem bmod_emod_of_fits {v : Int} {width : Nat} (hlo : -(2 ^ width : Nat) ≤ v)
    (hhi : v < (2 ^ width : Nat)) :
    Int.bmod ((v % (2 ^ (width + 1) : Nat)).toNat : Int) (2 ^ (width + 1)) = v := by
  have hpos : (0 : Int) < (2 ^ (width + 1) : Nat) := by positivity
  rw [Int.toNat_of_nonneg (Int.emod_nonneg _ hpos.ne'), Int.emod_bmod]
  have hsucc : ((2 ^ (width + 1) : Nat) : Int) = 2 * (2 ^ width : Nat) := by
    rw [pow_succ]; push_cast; ring
  refine Int.bmod_eq_of_le_mul_two ?_ ?_ <;> rw [hsucc] <;> linarith

/-! ### Byte strings -/

@[simp] theorem ofBytes_append (a b : List UInt8) : ofBytes (a ++ b) = ofBytes a ++ ofBytes b := by
  simp [ofBytes]

theorem ofNat_ofBits_toBits (b : UInt8) : UInt8.ofNat (ofBits (toBits 8 b.toNat)) = b := by
  rw [ofBits_toBits_of_lt b.toNat_lt, UInt8.ofNat_toNat]

/-- A byte string whose bits begin with those of another one begins with it. -/
theorem take_eq_of_ofBytes_eq {bytes start : List UInt8} {bits : List Bool}
    (h : ofBytes bytes = ofBytes start ++ bits) :
    bytes.take start.length = start ∧ ofBytes (bytes.drop start.length) = bits := by
  induction start generalizing bytes with
  | nil => exact ⟨rfl, h⟩
  | cons b start ih =>
    cases bytes with
    | nil => simp at h
    | cons b' bytes =>
      rw [ofBytes_cons, ofBytes_cons, List.append_assoc] at h
      obtain ⟨hfirst, hrest⟩ := List.append_inj h (by rw [length_toBits, length_toBits])
      obtain ⟨htake, hdrop⟩ := ih hrest
      have hbyte : b' = b := by
        rw [← ofNat_ofBits_toBits b', hfirst, ofNat_ofBits_toBits]
      rw [List.length_cons, List.take_succ_cons, List.drop_succ_cons, htake, hbyte]
      exact ⟨rfl, hdrop⟩

/-- Byte strings with the same bits are the same. -/
theorem ofBytes_injective : Function.Injective ofBytes := by
  intro a b h
  have hlength : a.length = b.length := by
    have hbits := congrArg List.length h
    rw [length_ofBytes, length_ofBytes] at hbits
    omega
  rw [← List.append_nil (ofBytes b)] at h
  have htake := (take_eq_of_ofBytes_eq h).1
  rwa [← hlength, List.take_length] at htake

end DolbyVision.Bits
