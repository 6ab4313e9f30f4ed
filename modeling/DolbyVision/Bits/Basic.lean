/-
**Bits, most significant first.**

A byte string is read and written bit by bit, the most significant bit of each byte first.  This
module fixes that order once: `toBits` spells a number in a given width, `ofBits` reads it back and
`ofBytes` spells a byte string.  The reader and the writer of the neighbouring modules are described
by these lists.

Main definitions:

* `DolbyVision.Bits.toBits`, `DolbyVision.Bits.ofBits` — a number and its bits;
* `DolbyVision.Bits.ofBytes` — the bits of a byte string;
* `DolbyVision.Bits.signExtend` — a narrow two's complement number in a wider word;
* `DolbyVision.Bits.lowerMask` — the word whose low bits are set.
-/

import DolbyVision.Checked

set_option relaxedAutoImplicit false
set_option autoImplicit false

namespace DolbyVision.Bits

/-- The lowest `width` bits of a number, the most significant one first. -/
def toBits : Nat → Nat → List Bool
  | 0, _ => []
  | width + 1, n => n.testBit width :: toBits width n

@[simp] theorem toBits_zero (n : Nat) : toBits 0 n = [] := rfl

@[simp] theorem toBits_succ (width n : Nat) :
    toBits (width + 1) n = n.testBit width :: toBits width n := rfl

@[simp] theorem length_toBits (width n : Nat) : (toBits width n).length = width := by
  induction width with
  | zero => rfl
  | succ width ih => rw [toBits_succ, List.length_cons, ih]

/-- The number that a list of bits spells, the most significant one first. -/
def ofBits (bits : List Bool) : Nat :=
  bits.foldl (fun n b => 2 * n + b.toNat) 0

@[simp] theorem ofBits_nil : ofBits [] = 0 := rfl

theorem ofBits_append_singleton (bits : List Bool) (b : Bool) :
    ofBits (bits ++ [b]) = 2 * ofBits bits + b.toNat := by
  simp [ofBits]

/-- The bits of a byte string. -/
def ofBytes (bytes : List UInt8) : List Bool :=
  bytes.flatMap fun b => toBits 8 b.toNat

@[simp] theorem ofBytes_nil : ofBytes [] = [] := rfl

@[simp] theorem ofBytes_cons (b : UInt8) (bytes : List UInt8) :
    ofBytes (b :: bytes) = toBits 8 b.toNat ++ ofBytes bytes := rfl

@[simp] theorem length_ofBytes (bytes : List UInt8) :
    (ofBytes bytes).length = 8 * bytes.length := by
  induction bytes with
  | nil => rfl
  | cons b bytes ih => rw [ofBytes_cons, List.length_append, length_toBits, ih,
      List.length_cons]; omega

/-- The two's complement number in the lowest `width` bits of a word, as a word of the full width
`w`, which may not be smaller.  The bits of the number are moved to the top of the word and back
down with copies of the sign.  The shift amount is taken modulo `w`, so widths `0` and `w` both
leave the word alone. -/
def signExtend {w : Nat} (value : BitVec w) (width : Nat) : Except Fault (BitVec w) := do
  let amount := (← Checked.sub w width) % w
  return (value <<< amount).sshiftRight amount

/-- The word whose lowest `width` bits are set. -/
def lowerMask (width : Nat) : Except Fault UInt64 := do
  if width = 0 then
    return 0
  let amount ← Checked.shiftAmount 64 (← Checked.sub 64 width)
  return 0xffffffffffffffff >>> UInt64.ofNat amount

/-- All bits of a word but the upper ones are left when it is moved down. -/
theorem toNat_ones_shiftRight {width : Nat} (hpos : width ≠ 0) (h64 : width ≤ 64) :
    ((0xffffffffffffffff : UInt64) >>> UInt64.ofNat (64 - width)).toNat = (1 <<< width) - 1 := by
  have hones : (0xffffffffffffffff : UInt64).toNat = 2 ^ 64 - 1 := rfl
  have hamount : (UInt64.ofNat (64 - width)).toNat % 64 = 64 - width := by
    rw [UInt64.toNat_ofNat']
    omega
  have hpow : 2 ^ width * 2 ^ (64 - width) = 2 ^ 64 := by
    rw [← Nat.pow_add, Nat.add_sub_cancel' h64]
  have hwidth := Nat.two_pow_pos width
  have hrest := Nat.two_pow_pos (64 - width)
  rw [UInt64.toNat_shiftRight, hamount, hones, Nat.shiftRight_eq_div_pow, Nat.one_shiftLeft]
  refine Nat.div_eq_of_lt_le ?_ ?_
  · rw [Nat.sub_mul, hpow]
    omega
  · rw [Nat.sub_add_cancel hwidth, hpow]
    decide

/-- A mask is the word that its name says. -/
theorem toNat_lowerMask {width : Nat} {mask : UInt64} (h : lowerMask width = .ok mask) :
    mask.toNat = (1 <<< width) - 1 := by
  unfold lowerMask at h
  by_cases hzero : width = 0
  · rw [if_pos hzero] at h
    subst hzero
    obtain rfl := Except.ok.inj h
    rfl
  · rw [if_neg hzero] at h
    obtain ⟨above, habove, h⟩ := Checked.ok_of_bind h
    obtain ⟨h64, rfl⟩ := Checked.sub_eq_ok habove
    obtain ⟨amount, hamount, h⟩ := Checked.ok_of_bind h
    obtain ⟨-, rfl⟩ := Checked.shiftAmount_eq_ok hamount
    obtain rfl := Except.ok.inj h
    exact toNat_ones_shiftRight hzero h64

/-- There is a mask for every width that a word has. -/
theorem exists_lowerMask {width : Nat} (h64 : width ≤ 64) : ∃ mask, lowerMask width = .ok mask := by
  unfold lowerMask
  by_cases hzero : width = 0
  · rw [if_pos hzero]
    exact ⟨0, rfl⟩
  · rw [if_neg hzero, Checked.bind_ok (Checked.sub_of_le h64),
      Checked.bind_ok (Checked.shiftAmount_of_lt (by omega))]
    exact ⟨_, rfl⟩

end DolbyVision.Bits
