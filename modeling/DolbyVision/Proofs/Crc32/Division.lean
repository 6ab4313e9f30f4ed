/-
**The checksum as a remainder.**

The register of the checksum divides a string of bits by the generator.  Fed bit by bit (`feed`), it
is linear: the remainder of a sum is the sum of the remainders, and sums are taken bit by bit.  No
bit is lost on the way, since the generator has a constant term, so nothing but zero is moved to
zero.  The table of the library does eight of these steps at once.

Main definitions:

* `DolbyVision.Crc32.feed`, `DolbyVision.Crc32.divide` — the register after a bit, and after a
  string of bits;
* `DolbyVision.Crc32.top` — a short string of bits, in the top of a register.

Main results:

* `DolbyVision.Crc32.shift_xor`, `DolbyVision.Crc32.shift_eq_zero_iff` — **moving the register is
  linear and injective**;
* `DolbyVision.Crc32.divide_eq_shifts` — a string that fits in the register is first added to it and
  then moved out of it;
* `DolbyVision.Crc32.update_eq_divide` — **the table divides bit by bit**;
* `DolbyVision.Crc32.divide_zipWith` — **division is linear**;
* `DolbyVision.Crc32.update_bigEndian_eq_zero_iff` — a register is brought to zero by its own bytes
  and by no others.
-/

import DolbyVision.Crc32
import DolbyVision.Proofs.Bits.Spelling
import Mathlib.Data.Nat.Bitwise

set_option relaxedAutoImplicit false
set_option autoImplicit false

namespace DolbyVision.Crc32

open Bits

/-! ### Moving the register -/

/-- The bit that leaves the register is the one in its top. -/
theorem and_mask_ne_zero (register : UInt32) :
    register &&& 0x80000000 ≠ 0 ↔ register.toBitVec.msb = true := by
  have hmask : (0x80000000 : UInt32).toNat = 2 ^ 31 := rfl
  have hmsb : register.toBitVec.msb = register.toNat.testBit 31 := BitVec.msb_eq_getLsbD_last _
  rw [ne_eq, ← UInt32.toNat_inj, UInt32.toNat_and, hmask, Nat.and_two_pow, hmsb]
  cases register.toNat.testBit 31 <;> simp

theorem toBitVec_shift (register : UInt32) :
    (shift register).toBitVec =
      (register.toBitVec <<< 1) ^^^ bif register.toBitVec.msb then polynomial.toBitVec else 0 := by
  unfold shift
  cases h : register.toBitVec.msb with
  | true =>
    rw [if_pos ((and_mask_ne_zero register).2 h), UInt32.toBitVec_xor, UInt32.toBitVec_shiftLeft]
    rfl
  | false =>
    have hmask : ¬ register &&& 0x80000000 ≠ 0 := by
      rw [and_mask_ne_zero, h]
      exact Bool.false_ne_true
    rw [if_neg hmask, UInt32.toBitVec_shiftLeft]
    exact (BitVec.xor_zero).symm

/-- **Moving the register is linear.** -/
theorem shift_xor (a b : UInt32) : shift (a ^^^ b) = shift a ^^^ shift b := by
  have hsum (c d : Bool) (v : BitVec 32) :
      (bif c ^^ d then v else 0) = (bif c then v else 0) ^^^ bif d then v else 0 := by
    cases c <;> cases d <;> simp
  apply UInt32.toBitVec_inj.1
  simp only [toBitVec_shift, UInt32.toBitVec_xor, BitVec.msb_xor, BitVec.shiftLeft_xor_distrib,
    hsum]
  ac_rfl

@[simp] theorem shift_zero : shift 0 = 0 := rfl

/-- **Nothing but zero is moved to zero**: the bit that leaves the register comes back in the lowest
place. -/
theorem shift_eq_zero_iff (register : UInt32) : shift register = 0 ↔ register = 0 := by
  refine ⟨fun h => ?_, fun h => h ▸ shift_zero⟩
  have hbits := congrArg UInt32.toBitVec h
  rw [toBitVec_shift] at hbits
  have hmsb : register.toBitVec.msb = false := by
    have hlowest := congrArg (BitVec.getLsbD · 0) hbits
    cases hmsb : register.toBitVec.msb with
    | false => rfl
    | true =>
      rw [hmsb] at hlowest
      simp [polynomial] at hlowest
  rw [hmsb] at hbits
  apply UInt32.toBitVec_inj.1
  apply BitVec.eq_of_getLsbD_eq
  intro i hi
  by_cases htop : i = 31
  · subst htop
    rw [BitVec.msb_eq_getLsbD_last] at hmsb
    simpa using hmsb
  · have hbit := congrArg (BitVec.getLsbD · (i + 1)) hbits
    simp at hbit
    simpa using hbit (by omega)

theorem shifts_xor (n : Nat) (a b : UInt32) : shifts n (a ^^^ b) = shifts n a ^^^ shifts n b := by
  induction n generalizing a b with
  | zero => rfl
  | succ n ih => rw [shifts_succ, shift_xor, ih, shifts_succ, shifts_succ]

theorem shifts_eq_zero_iff (n : Nat) (register : UInt32) :
    shifts n register = 0 ↔ register = 0 := by
  induction n generalizing register with
  | zero => rfl
  | succ n ih => rw [shifts_succ, ih, shift_eq_zero_iff]

/-- A register whose top is empty is only moved up. -/
theorem shift_shiftRight {register : UInt32} (h : register.toBitVec.getLsbD 0 = false) :
    shift (register >>> 1) = register := by
  have hdown : (register >>> 1).toBitVec = register.toBitVec >>> 1 := UInt32.toBitVec_shiftRight ..
  apply UInt32.toBitVec_inj.1
  rw [toBitVec_shift, hdown, BitVec.msb_ushiftRight]
  apply BitVec.eq_of_getLsbD_eq
  intro i hi
  cases i with
  | zero => simpa using h.symm
  | succ i => simp [Nat.add_comm, hi]

/-! ### Dividing a string of bits -/

/-- A register with a bit in its top and nothing below. -/
def highest (b : Bool) : UInt32 :=
  bif b then 0x80000000 else 0

theorem highest_xor (b c : Bool) : highest (b ^^ c) = highest b ^^^ highest c := by
  cases b <;> cases c <;> rfl

theorem getLsbD_highest (b : Bool) (i : Nat) :
    (highest b).toBitVec.getLsbD i = (b && decide (i = 31)) := by
  have hmask : (0x80000000 : UInt32).toNat = 2 ^ 31 := rfl
  cases b with
  | false => exact BitVec.getLsbD_zero
  | true =>
    change (0x80000000 : UInt32).toNat.testBit i = _
    rw [hmask, Nat.testBit_two_pow, Bool.true_and, decide_eq_decide, eq_comm]

/-- The register after one more bit, which is added to the one in its top. -/
def feed (register : UInt32) (b : Bool) : UInt32 :=
  shift (register ^^^ highest b)

/-- The register after a string of bits. -/
def divide (register : UInt32) (bits : List Bool) : UInt32 :=
  bits.foldl feed register

@[simp] theorem divide_nil (register : UInt32) : divide register [] = register := rfl

@[simp] theorem divide_cons (register : UInt32) (b : Bool) (bits : List Bool) :
    divide register (b :: bits) = divide (feed register b) bits := rfl

theorem divide_append (register : UInt32) (a b : List Bool) :
    divide register (a ++ b) = divide (divide register a) b :=
  List.foldl_append

theorem feed_xor (a b : UInt32) (c d : Bool) :
    feed (a ^^^ b) (c ^^ d) = feed a c ^^^ feed b d := by
  unfold feed
  rw [← shift_xor, highest_xor]
  congr 1
  ac_rfl

/-- **Division is linear.** -/
theorem divide_zipWith (a b : UInt32) {s t : List Bool} (h : s.length = t.length) :
    divide (a ^^^ b) (List.zipWith (· ^^ ·) s t) = divide a s ^^^ divide b t := by
  induction s generalizing a b t with
  | nil =>
    obtain rfl := List.length_eq_zero_iff.1 h.symm
    rfl
  | cons c s ih =>
    cases t with
    | nil => cases h
    | cons d t =>
      rw [List.zipWith_cons_cons, divide_cons, feed_xor, ih _ _ (Nat.succ.inj h), divide_cons,
        divide_cons]

theorem divide_zeros (register : UInt32) (n : Nat) :
    divide register (List.replicate n false) = shifts n register := by
  induction n generalizing register with
  | zero => rfl
  | succ n ih =>
    have hfeed : feed register false = shift register := congrArg shift UInt32.xor_zero
    rw [List.replicate_succ, divide_cons, ih, hfeed, shifts_succ]

/-! ### Strings that fit in the register -/

/-- The first bits of a string, in the top of a register. -/
def top : List Bool → UInt32
  | [] => 0
  | b :: bits => highest b ^^^ (top bits >>> 1)

/-- The highest bit of a register with a string in its top is the first one of the string. -/
theorem getLsbD_top (bits : List Bool) {i : Nat} (hi : i < 32) :
    (top bits).toBitVec.getLsbD i = bits.getD (31 - i) false := by
  induction bits generalizing i with
  | nil => exact BitVec.getLsbD_zero
  | cons b bits ih =>
    have hdown : (top bits >>> 1).toBitVec = (top bits).toBitVec >>> 1 :=
      UInt32.toBitVec_shiftRight ..
    rw [top, UInt32.toBitVec_xor, BitVec.getLsbD_xor, hdown, BitVec.getLsbD_ushiftRight,
      getLsbD_highest]
    by_cases hfirst : i = 31
    · subst hfirst
      simp
    · have hsub : 31 - i = (31 - (1 + i)) + 1 := by omega
      rw [ih (by omega), hsub, List.getD_cons_succ, decide_eq_false hfirst, Bool.and_false,
        Bool.false_xor]

/-- **A string that fits in the register** is added to it and then moved out of it. -/
theorem divide_eq_shifts (register : UInt32) {bits : List Bool} (h : bits.length ≤ 32) :
    divide register bits = shifts bits.length (register ^^^ top bits) := by
  induction bits generalizing register with
  | nil => exact UInt32.xor_zero.symm
  | cons b bits ih =>
    rw [List.length_cons] at h
    have hlowest : (top bits).toBitVec.getLsbD 0 = false := by
      rw [getLsbD_top bits (by decide), List.getD_eq_default _ _ (by omega)]
    -- The rest of the string is still one place below the top when the first bit is moved out.
    have hmoved : feed register b ^^^ top bits = shift (register ^^^ top (b :: bits)) := by
      conv_lhs => rw [feed, ← shift_shiftRight hlowest]
      rw [← shift_xor, UInt32.xor_assoc, top]
    rw [divide_cons, ih _ (by omega), hmoved, List.length_cons, shifts_succ]

/-- A string that fits in the register leaves a trace there, unless it has no bit set. -/
theorem top_ne_zero {bits : List Bool} (h : bits.length ≤ 32) (hset : true ∈ bits) :
    top bits ≠ 0 := by
  obtain ⟨i, hi, hbit⟩ := List.getElem_of_mem hset
  have hplace : (top bits).toBitVec.getLsbD (31 - i) = true := by
    have hsub : 31 - (31 - i) = i := by omega
    rw [getLsbD_top bits (by omega), hsub, List.getD_eq_getElem _ _ hi, hbit]
  intro hzero
  rw [hzero] at hplace
  simp at hplace

/-- A number in the top of a register. -/
theorem top_toBits {width : Nat} (h : width ≤ 32) (n : Nat) :
    top (toBits width n) = UInt32.ofNat (n <<< (32 - width)) := by
  apply UInt32.toBitVec_inj.1
  apply BitVec.eq_of_getLsbD_eq
  intro i hi
  rw [getLsbD_top _ hi, UInt32.toBitVec_ofNat', BitVec.getLsbD_ofNat, decide_eq_true hi,
    Bool.true_and, Nat.testBit_shiftLeft]
  by_cases hplace : 32 - width ≤ i
  · have hlt : 31 - i < (toBits width n).length := by rw [length_toBits]; omega
    have hsub : width - 1 - (31 - i) = i - (32 - width) := by omega
    rw [List.getD_eq_getElem _ _ hlt, getElem_toBits, hsub, decide_eq_true hplace, Bool.true_and]
  · have hlt : (toBits width n).length ≤ 31 - i := by rw [length_toBits]; omega
    rw [List.getD_eq_default _ _ hlt, decide_eq_false hplace, Bool.false_and]

/-! ### The table -/

/-- Bits below the top are moved up, as long as none of them leaves the register. -/
theorem shifts_shiftRight (n : Nat) {v : BitVec 32} (h : ∀ i < n, v.getLsbD i = false) :
    shifts n (UInt32.ofBitVec (v >>> n)) = UInt32.ofBitVec v := by
  induction n with
  | zero => rw [BitVec.ushiftRight_zero, shifts_zero]
  | succ n ih =>
    have hlowest : (v >>> n).getLsbD 0 = false := by simpa using h n (Nat.lt_succ_self n)
    have hlast : UInt32.ofBitVec (v >>> (n + 1)) = UInt32.ofBitVec (v >>> n) >>> 1 := by
      apply UInt32.toBitVec_inj.1
      rw [UInt32.toBitVec_shiftRight, BitVec.shiftRight_add]
      rfl
    rw [shifts_succ, hlast, shift_shiftRight hlowest, ih fun i hi => h i (Nat.lt_succ_of_lt hi)]

/-- A byte is added to the top byte of a register only. -/
theorem xor_byte_eq (register : UInt32) (byte : UInt8) :
    register ^^^ (byte.toUInt32 <<< 24) =
      ((register >>> 24).toUInt8 ^^^ byte).toUInt32 <<< 24 ^^^
        UInt32.ofBitVec (register.toBitVec <<< 8 >>> 8) := by
  have hdown : (register >>> 24).toBitVec = register.toBitVec >>> 24 :=
    UInt32.toBitVec_shiftRight ..
  have hup (v : UInt32) : (v <<< 24).toBitVec = v.toBitVec <<< 24 := UInt32.toBitVec_shiftLeft ..
  apply UInt32.toBitVec_inj.1
  apply BitVec.eq_of_getLsbD_eq
  intro i hi
  simp only [UInt32.toBitVec_xor, hup, UInt8.toBitVec_toUInt32, UInt8.toBitVec_xor,
    UInt32.toBitVec_toUInt8, hdown, BitVec.getLsbD_xor, BitVec.getLsbD_shiftLeft,
    BitVec.getLsbD_setWidth, BitVec.getLsbD_ushiftRight]
  by_cases htop : i < 24
  · have hkept : 8 + i < 32 := by omega
    simp [htop, hi, hkept]
  · have hplace : 24 + (i - 24) = i := by omega
    have hlost : ¬ 8 + i < 32 := by omega
    have hbyte : i - 24 < 8 := by omega
    have hword : i - 24 < 32 := by omega
    simp [htop, hi, hplace, hlost, hbyte, hword]

/-- A step over a byte divides the bits of the byte. -/
theorem step_eq_divide (register : UInt32) (byte : UInt8) :
    step register byte = divide register (toBits 8 byte.toNat) := by
  have hbyte : top (toBits 8 byte.toNat) = byte.toUInt32 <<< 24 := by
    rw [top_toBits (by decide)]
    apply UInt32.toNat_inj.1
    simp
  have hbelow : shifts 8 (UInt32.ofBitVec (register.toBitVec <<< 8 >>> 8)) = register <<< 8 := by
    rw [shifts_shiftRight 8 (by simp +contextual)]
    rfl
  calc step register byte
      = register <<< 8 ^^^ remainder ((register >>> 24).toUInt8 ^^^ byte) := by
        rw [step, table_get]
    _ = shifts 8 (register ^^^ byte.toUInt32 <<< 24) := by
        rw [xor_byte_eq, shifts_xor, hbelow, UInt32.xor_comm, remainder]
    _ = divide register (toBits 8 byte.toNat) := by
        rw [divide_eq_shifts _ (by simp), length_toBits, hbyte]

/-- **The table divides bit by bit.** -/
theorem update_eq_divide (register : UInt32) (bytes : List UInt8) :
    update register bytes = divide register (ofBytes bytes) := by
  induction bytes generalizing register with
  | nil => rfl
  | cons byte bytes ih => rw [update_cons, ih, step_eq_divide, ofBytes_cons, divide_append]

/-! ### The bytes of a register -/

/-- The byte of a register that ends at a given place. -/
theorem toNat_byte (v n : UInt32) (k : Nat) (hn : n.toNat % 32 = k) :
    (v >>> n).toUInt8.toNat = v.toNat / 2 ^ k % 2 ^ 8 := by
  rw [UInt32.toNat_toUInt8, UInt32.toNat_shiftRight, hn, Nat.shiftRight_eq_div_pow]

/-- The bytes of a register spell it, the most significant bit first. -/
theorem ofBytes_bigEndian (v : UInt32) : ofBytes (bigEndian v) = toBits 32 v.toNat := by
  rw [toBits_add 8 24, toBits_add 8 16, toBits_add 8 8]
  simp only [bigEndian, ofBytes_cons, ofBytes_nil, toNat_byte v 24 24 rfl, toNat_byte v 16 16 rfl,
    toNat_byte v 8 8 rfl, UInt32.toNat_toUInt8, toBits_mod, List.append_nil]

/-- **A register is brought to zero by its own bytes**, and by those of no other. -/
theorem update_bigEndian_eq_zero_iff (register v : UInt32) :
    update register (bigEndian v) = 0 ↔ register = v := by
  have htop : top (ofBytes (bigEndian v)) = v := by
    rw [ofBytes_bigEndian, top_toBits (Nat.le_refl 32), Nat.sub_self, Nat.shiftLeft_zero,
      UInt32.ofNat_toNat]
  rw [update_eq_divide, divide_eq_shifts _ (Nat.le_of_eq (by simp [bigEndian])),
    shifts_eq_zero_iff, htop]
  simp

end DolbyVision.Crc32
