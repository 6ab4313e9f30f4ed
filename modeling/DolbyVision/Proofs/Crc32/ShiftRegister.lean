/-
**The checksum as a shift register.**

In the shift register of the checksum a bit leaves at the top, the next bit of the data is added to
it, and if the sum is set the generator is added to what has moved up.  This module describes that
register by itself (`clock`), without the table and without the loop that builds it, and proves that
a register which is fed from the table, in portions of any size, goes through the same states.

Two laws follow that a decoder relies on.  A checksum that is sent behind its data brings the
register to zero, and sums of registers over sums of data are sums.

Main definitions:

* `DolbyVision.Crc32.clock`, `DolbyVision.Crc32.clockAll` — the shift register over a bit, and over
  a string of bits.

Main results:

* `DolbyVision.Crc32.absorbAll_eq_update` — **portions do not matter**;
* `DolbyVision.Crc32.toBitVec_update` — **the table clocks the register** eight times a byte;
* `DolbyVision.Crc32.clocks_register` — both, with the laws of zero residue and of sums.
-/

import DolbyVision.Proofs.Crc32.Burst

set_option relaxedAutoImplicit false
set_option autoImplicit false

namespace DolbyVision.Crc32

open Bits

/-! ### The shift register -/

/-- The shift register after one more bit. -/
def clock (register : BitVec 32) (b : Bool) : BitVec 32 :=
  if register.msb ^^ b then (register <<< 1) ^^^ 0x04c11db7#32 else register <<< 1

/-- The shift register after a string of bits. -/
def clockAll (register : BitVec 32) (bits : List Bool) : BitVec 32 :=
  bits.foldl clock register

@[simp] theorem clockAll_cons (register : BitVec 32) (b : Bool) (bits : List Bool) :
    clockAll register (b :: bits) = clockAll (clock register b) bits := rfl

/-- A bit that is added to the top of a register leaves with the one that is there. -/
theorem toBitVec_feed (register : UInt32) (b : Bool) :
    (feed register b).toBitVec = clock register.toBitVec b := by
  have hmsb : (highest b).toBitVec.msb = b := by cases b <;> rfl
  have hgone : (highest b).toBitVec <<< 1 = 0#32 := by cases b <;> rfl
  rw [feed, toBitVec_shift, UInt32.toBitVec_xor, BitVec.msb_xor, BitVec.shiftLeft_xor_distrib,
    hmsb, hgone, BitVec.xor_zero, clock]
  cases register.toBitVec.msb ^^ b with
  | false => exact BitVec.xor_zero
  | true => rfl

theorem toBitVec_divide (register : UInt32) (bits : List Bool) :
    (divide register bits).toBitVec = clockAll register.toBitVec bits := by
  induction bits generalizing register with
  | nil => rfl
  | cons b bits ih => rw [divide_cons, ih, toBitVec_feed, clockAll_cons]

/-- **The table clocks the register** eight times a byte. -/
theorem toBitVec_update (register : UInt32) (bytes : List UInt8) :
    (update register bytes).toBitVec = clockAll register.toBitVec (ofBytes bytes) := by
  rw [update_eq_divide, toBitVec_divide]

/-- The nine digits, on which the checksum of the generator is commonly tabulated. -/
example : clockAll 0xffffffff#32 (ofBytes [0x31, 0x32, 0x33, 0x34, 0x35, 0x36, 0x37, 0x38, 0x39]) =
    0x0376e6e7#32 := by decide +kernel

/-! ### Portions -/

theorem stepQuad_eq_update (register : UInt32) (bytes : Vector UInt8 4) :
    stepQuad register bytes = update register bytes.toList := by
  obtain ⟨⟨list⟩, hsize⟩ := bytes
  match list, hsize with
  | [_, _, _, _], _ => rfl

theorem absorb_eq_update (register : UInt32) (portion : Portion) :
    absorb register portion = update register portion.bytes := by
  cases portion with
  | byte b => rfl
  | quad bytes => exact stepQuad_eq_update register bytes
  | buffer bytes => rfl

/-- **Portions do not matter**, but only the bytes that they are made of. -/
theorem absorbAll_eq_update (register : UInt32) (portions : List Portion) :
    absorbAll register portions = update register (bytesOf portions) := by
  induction portions generalizing register with
  | nil => rfl
  | cons portion portions ih =>
    rw [absorbAll_cons, ih, absorb_eq_update, bytesOf_cons, update_append]

/-! ### The laws of the register -/

/-- **A register that is fed from the table is the shift register.**  In whatever portions its bytes
are handed over, it goes where their bits clock it.  Its own bytes bring it to zero, and those of no
other word do.  The sum of two registers over the sum of two byte strings of one length is the sum
of what they come to. -/
theorem clocks_register :
    (∀ (register : UInt32) (portions : List Portion),
      (absorbAll register portions).toBitVec =
        clockAll register.toBitVec (ofBytes (bytesOf portions))) ∧
    (∀ (register v : UInt32) (portions : List Portion), bytesOf portions = bigEndian v →
      (absorbAll register portions = 0 ↔ register = v)) ∧
    ∀ (s t : UInt32) (sum a b : List Portion), (bytesOf a).length = (bytesOf b).length →
      bytesOf sum = List.zipWith (· ^^^ ·) (bytesOf a) (bytesOf b) →
        absorbAll (s ^^^ t) sum = absorbAll s a ^^^ absorbAll t b := by
  refine ⟨fun register portions => ?_, fun register v portions hbytes => ?_,
    fun s t sum a b hlength hsum => ?_⟩
  · rw [absorbAll_eq_update, toBitVec_update]
  · rw [absorbAll_eq_update, hbytes, update_bigEndian_eq_zero_iff]
  · rw [absorbAll_eq_update, absorbAll_eq_update, absorbAll_eq_update, hsum]
    exact update_xor s t hlength

/-- A register and its own bytes, and two buffers whose sum comes in other portions. -/
theorem clocks_register_cut :
    absorbAll 0x0376e6e7 [.byte 0x03, .buffer [0x76, 0xe6], .byte 0xe7] = 0 ∧
      absorbAll (0xffffffff ^^^ 0x80000001) [.quad #v[0xce, 0x32, 0x30, 0x34], .byte 0x3a] =
        absorbAll 0xffffffff [.buffer [0x31, 0x32, 0x33, 0x34, 0x35]] ^^^
          absorbAll 0x80000001 [.byte 0xff, .quad #v[0x00, 0x03, 0x00, 0x0f]] :=
  ⟨(clocks_register.2.1 _ 0x0376e6e7 _ (by decide)).2 rfl,
    clocks_register.2.2 _ _ _ _ _ (by decide) (by decide)⟩

end DolbyVision.Crc32
