/-
**Fixed-point coefficients are a code.**

A fixed-point coefficient is a word with a point in it.  What stands above the point is written as
an Exp-Golomb code, and what stands below it as it is.  An Exp-Golomb code does not reach all that
can stand above the point, so some words are refused; of the others each has one spelling, which is
what a reader takes when it gives the word.

A reader moves the integer part up and adds the fraction, both in a word of 64 bits.  With at most
32 fraction bits a code is too short for its value to leave the word, so the sum is the sum of the
numbers.

Main definitions:

* `DolbyVision.Bits.IsGuardedCode` — a read and a write that are each other's converse on the values
  that are not refused;
* `DolbyVision.Coefficient.signedBits`, `unsignedBits` — the spelling of a word;
* `DolbyVision.Coefficient.IsSignedSum`, `IsUnsignedSum` — a word that was put together exactly.

Main results:

* `DolbyVision.Coefficient.recognizes_signed`, `recognizes_unsigned` — **a word is read from its
  spelling** and from no other bits;
* `DolbyVision.Coefficient.isSignedSum_of_read`, `isUnsignedSum_of_read` — **no sum leaves its
  word**;
* `DolbyVision.Coefficient.isGuardedCode_fixedPoint` — **fixed-point coefficients are a code**.
-/

import DolbyVision.Proofs.Bits.Codes
import DolbyVision.Proofs.Rpu.Coefficient

set_option relaxedAutoImplicit false
set_option autoImplicit false

namespace DolbyVision

open Bits

/-- The read `p` and the write `put` are each other's converse on some values, of which each has one
spelling; all others are refused when they are written. -/
structure Bits.IsGuardedCode {α : Type} (p : BitParser α) (put : Writer → α → Except Fault Writer)
    (spelling : α → List Bool) (values : Set α) (fault : Fault) : Prop where
  /-- A value is written as it is spelled, wherever the writer has come to. -/
  writes : ∀ a ∈ values, ∀ w, ∃ w', put w a = .ok w' ∧ w'.written = w.written ++ spelling a
  /-- What is not a value is refused. -/
  refuses : ∀ a ∉ values, ∀ w, put w a = .error fault
  /-- Wherever a reader stands, what it takes when it gives a value is the spelling of that value,
  and the spelling of a value is taken and gives it. -/
  reads : Recognizes p fun bits a => a ∈ values ∧ bits = spelling a

namespace Coefficient

variable {h : Header} {width : Nat}

/-! ### The spelling of a word -/

/-- The spelling of a signed word: the code of what stands above the point, and the bits below. -/
def signedBits (width : Nat) (c : Int64) : List Bool :=
  unsignedCodeBits (signedCode (c >>> Int64.ofNat width).toInt) ++ toBits width c.toUInt64.toNat

/-- The spelling of an unsigned word. -/
def unsignedBits (width : Nat) (c : UInt64) : List Bool :=
  unsignedCodeBits (c >>> UInt64.ofNat width).toNat ++ toBits width c.toNat

/-- An arithmetic shift rounds down. -/
theorem toInt_shiftRight (h64 : width < 64) (c : Int64) :
    (c >>> Int64.ofNat width).toInt = c.toInt / (2 ^ width : Nat) := by
  have hlt : width < 2 ^ 64 := by omega
  rw [← Int64.toInt_toBitVec, Int64.toBitVec_shiftRight, Int64.toBitVec_ofNat', smod_amount h64,
    BitVec.sshiftRight_eq', BitVec.toNat_ofNat, Nat.mod_eq_of_lt hlt, BitVec.toInt_sshiftRight,
    Int.shiftRight_eq_div_pow, Int64.toInt_toBitVec]

/-- The low bits of a signed word are its remainder, which is not negative. -/
theorem toBits_toUInt64 (h64 : width ≤ 64) (c : Int64) :
    toBits width c.toUInt64.toNat = toBits width (c.toInt % (2 ^ width : Nat)).toNat := by
  -- A word and its number differ by a multiple of `2 ^ 64`, of which the low bits see nothing.
  have hdvd : ((2 ^ width : Nat) : Int) ∣ (2 ^ 64 : Nat) :=
    Int.natCast_dvd_natCast.2 (Nat.pow_dvd_pow 2 h64)
  have hmod : c.toInt % (2 ^ width : Nat) = ((c.toUInt64.toNat % 2 ^ width : Nat) : Int) := by
    rw [← Int64.toInt_toBitVec, BitVec.toInt_eq_toNat_bmod, ← Int.emod_emod_of_dvd _ hdvd,
      Int.bmod_emod, Int.emod_emod_of_dvd _ hdvd, Int64.toNat_toBitVec, Int.natCast_mod]
  rw [hmod, Int.toNat_natCast, toBits_mod]

/-- The parts of a spelling are those that are written: a quotient and a remainder. -/
theorem signedBits_eq (h64 : width < 64) (c : Int64) :
    signedBits width c = unsignedCodeBits (signedCode (c.toInt / (2 ^ width : Nat))) ++
      toBits width (c.toInt % (2 ^ width : Nat)).toNat := by
  rw [signedBits, toInt_shiftRight h64, toBits_toUInt64 h64.le]

theorem unsignedBits_eq (h64 : width < 64) (c : UInt64) :
    unsignedBits width c =
      unsignedCodeBits (c.toNat / 2 ^ width) ++ toBits width (c.toNat % 2 ^ width) := by
  rw [unsignedBits, UInt64.toNat_shiftRight, Reader.toNat_amount h64, Nat.shiftRight_eq_div_pow,
    toBits_mod]

/-! ### Writing -/

/-- A fixed-point coefficient is written part by part, if its integer part has a code. -/
theorem putSigned_eq (htype : h.coefficientType = Header.fixedPoint) (h63 : fractionWidth h < 63)
    (w : Writer) (c : Int64) :
    putSigned w h c =
      if (c.toInt / (2 ^ fractionWidth h : Nat)).natAbs < 2 ^ 31 then do
        let w ← w.putSignedCode (c.toInt / (2 ^ fractionWidth h : Nat))
        w.put (fractionWidth h) (c.toInt % (2 ^ fractionWidth h : Nat)).toNat
      else .error (.invalidArgument .reshapingCoefficientRange) := by
  unfold putSigned
  rw [if_pos htype, Checked.bind_ok (Checked.bit_of_lt h63), Nat.one_shiftLeft]
  rfl

theorem putUnsigned_eq (htype : h.coefficientType = Header.fixedPoint)
    (h64 : fractionWidth h < 64) (w : Writer) (c : UInt64) :
    putUnsigned w h c =
      if c.toNat / 2 ^ fractionWidth h < 2 ^ 32 - 1 then do
        let w ← w.putUnsignedCode (c.toNat / 2 ^ fractionWidth h)
        w.put (fractionWidth h) (c.toNat % 2 ^ fractionWidth h)
      else .error (.invalidArgument .nlqCoefficientRange) := by
  unfold putUnsigned
  rw [if_pos htype, Checked.bind_ok (Checked.bit_of_lt h64), Nat.one_shiftLeft]
  rfl

/-! ### Reading -/

theorem readSigned_eq (htype : h.coefficientType = Header.fixedPoint)
    (h64 : fractionWidth h < 64) :
    readSigned h = Reader.signedCode >>= fun whole =>
      Reader.bits (fractionWidth h) >>= fun fraction =>
        pure ((Int64.ofInt whole <<< Int64.ofNat (fractionWidth h)) + Int64.ofNat fraction) := by
  unfold readSigned
  rw [if_pos htype, Checked.shiftAmount_of_lt h64]
  rfl

theorem readUnsigned_eq (htype : h.coefficientType = Header.fixedPoint)
    (h64 : fractionWidth h < 64) :
    readUnsigned h = Reader.unsignedCode >>= fun whole =>
      Reader.bits (fractionWidth h) >>= fun fraction =>
        pure ((UInt64.ofNat whole <<< UInt64.ofNat (fractionWidth h)) + UInt64.ofNat fraction) := by
  unfold readUnsigned
  rw [if_pos htype, Checked.shiftAmount_of_lt h64]
  rfl

/-- **A signed word is read from its spelling** and from no other bits. -/
theorem recognizes_signed (htype : h.coefficientType = Header.fixedPoint)
    (h32 : fractionWidth h ≤ 32) :
    Recognizes (readSigned h) fun bits c =>
      (c.toInt / (2 ^ fractionWidth h : Nat)).natAbs < 2 ^ 31 ∧
        bits = signedBits (fractionWidth h) c := by
  have h64 : fractionWidth h < 64 := by omega
  have hread := isCode_signedCode.reads.bind fun _ whole _ =>
    (recognizes_bits h64.le).bind fun _ fraction _ => Recognizes.pure
      ((Int64.ofInt whole <<< Int64.ofNat (fractionWidth h)) + Int64.ofNat fraction)
  rw [readSigned_eq htype h64]
  refine hread.congr fun bits c => ?_
  rw [signedBits_eq h64]
  constructor
  · -- What was put together comes apart into what was read.
    rintro ⟨_, _, whole, rfl, ⟨hwhole, rfl⟩, _, _, fraction, rfl, ⟨hfraction, rfl⟩, rfl, rfl⟩
    obtain ⟨hquotient, hremainder⟩ :=
      signedParts_of_sum (toInt_join h32 hwhole hfraction) hfraction
    rw [hquotient, hremainder, List.append_nil]
    exact ⟨hwhole, rfl⟩
  · -- A word is put together again from its own parts.
    rintro ⟨hwhole, rfl⟩
    exact ⟨_, _, _, rfl, ⟨hwhole, rfl⟩, _, [], _, (List.append_nil _).symm,
      ⟨toNat_emod_lt c.toInt _, rfl⟩, rfl, (shiftLeft_add_parts h64 c).symm⟩

/-- **An unsigned word is read from its spelling**, too. -/
theorem recognizes_unsigned (htype : h.coefficientType = Header.fixedPoint)
    (h32 : fractionWidth h ≤ 32) :
    Recognizes (readUnsigned h) fun bits c =>
      c.toNat / 2 ^ fractionWidth h ≤ maxCode ∧ bits = unsignedBits (fractionWidth h) c := by
  have h64 : fractionWidth h < 64 := by omega
  have hread := isCode_unsignedCode.reads.bind fun _ whole _ =>
    (recognizes_bits h64.le).bind fun _ fraction _ => Recognizes.pure
      ((UInt64.ofNat whole <<< UInt64.ofNat (fractionWidth h)) + UInt64.ofNat fraction)
  rw [readUnsigned_eq htype h64]
  refine hread.congr fun bits c => ?_
  rw [unsignedBits_eq h64]
  constructor
  · rintro ⟨_, _, whole, rfl, ⟨hwhole, rfl⟩, _, _, fraction, rfl, ⟨hfraction, rfl⟩, rfl, rfl⟩
    obtain ⟨hquotient, hremainder⟩ :=
      unsignedParts_of_sum (toNat_join h32 hwhole hfraction) hfraction
    rw [hquotient, hremainder, List.append_nil]
    exact ⟨hwhole, rfl⟩
  · rintro ⟨hwhole, rfl⟩
    exact ⟨_, _, _, rfl, ⟨hwhole, rfl⟩, _, [], _, (List.append_nil _).symm,
      ⟨Nat.mod_lt _ (Nat.two_pow_pos _), rfl⟩, rfl, (shiftLeft_add_unsigned h64 c).symm⟩

/-! ### Sums -/

/-- Between two readers stand the parts of a signed word, and no word on the way from them to their
sum is too narrow for its number. -/
def IsSignedSum (width : Nat) (r r' : Reader) (c : Int64) : Prop :=
  ∃ whole r₁ fraction, Reader.signedCode r = .ok whole r₁ ∧
    Reader.bits width r₁ = .ok fraction r' ∧
    (Int64.ofInt whole <<< Int64.ofNat width).toInt = whole * 2 ^ width ∧
    (Int64.ofNat fraction).toInt = fraction ∧
    c.toInt = whole * 2 ^ width + fraction

/-- The same of an unsigned word. -/
def IsUnsignedSum (width : Nat) (r r' : Reader) (c : UInt64) : Prop :=
  ∃ whole r₁ fraction, Reader.unsignedCode r = .ok whole r₁ ∧
    Reader.bits width r₁ = .ok fraction r' ∧
    (UInt64.ofNat whole <<< UInt64.ofNat width).toNat = whole * 2 ^ width ∧
    (UInt64.ofNat fraction).toNat = fraction ∧
    c.toNat = whole * 2 ^ width + fraction

variable {r r' : Reader}

/-- **No sum leaves its word** when a coefficient of a curve is read. -/
theorem isSignedSum_of_read (htype : h.coefficientType = Header.fixedPoint)
    (h32 : fractionWidth h ≤ 32) {c : Int64} (hrun : readSigned h r = .ok c r') :
    IsSignedSum (fractionWidth h) r r' c := by
  rw [readSigned_eq htype (by omega)] at hrun
  obtain ⟨whole, r₁, hcode, hrun⟩ := Run.ok_of_bind hrun
  obtain ⟨fraction, r₂, hbits, hrun⟩ := Run.ok_of_bind hrun
  obtain ⟨rfl, rfl⟩ := EStateM.Result.ok.inj hrun
  have hwhole := gives_signedCode _ _ _ hcode
  have hfraction := gives_bits _ _ _ _ hbits
  have hpow : 2 ^ fractionWidth h ≤ 2 ^ 32 := Nat.pow_le_pow_right (by decide) h32
  refine ⟨whole, r₁, fraction, hcode, hbits, ?_, Int64.toInt_ofNat_of_lt (by omega), ?_⟩
  · rw [toInt_shifted h32 hwhole, Nat.cast_pow, Nat.cast_ofNat]
  · rw [toInt_join h32 hwhole hfraction, Nat.cast_pow, Nat.cast_ofNat]

/-- **No sum leaves its word** when a coefficient of the inverse quantization is read. -/
theorem isUnsignedSum_of_read (htype : h.coefficientType = Header.fixedPoint)
    (h32 : fractionWidth h ≤ 32) {c : UInt64} (hrun : readUnsigned h r = .ok c r') :
    IsUnsignedSum (fractionWidth h) r r' c := by
  rw [readUnsigned_eq htype (by omega)] at hrun
  obtain ⟨whole, r₁, hcode, hrun⟩ := Run.ok_of_bind hrun
  obtain ⟨fraction, r₂, hbits, hrun⟩ := Run.ok_of_bind hrun
  obtain ⟨rfl, rfl⟩ := EStateM.Result.ok.inj hrun
  have hwhole := gives_unsignedCode _ _ _ hcode
  have hfraction := gives_bits _ _ _ _ hbits
  have hpow : 2 ^ fractionWidth h ≤ 2 ^ 32 := Nat.pow_le_pow_right (by decide) h32
  refine ⟨whole, r₁, fraction, hcode, hbits, toNat_shifted h32 hwhole, ?_,
    toNat_join h32 hwhole hfraction⟩
  rw [UInt64.toNat_ofNat', Nat.mod_eq_of_lt (by omega)]

/-! ### Both directions -/

theorem isGuardedCode_signed (htype : h.coefficientType = Header.fixedPoint)
    (h32 : fractionWidth h ≤ 32) :
    IsGuardedCode (readSigned h) (putSigned · h ·) (signedBits (fractionWidth h))
      {c | (c.toInt / (2 ^ fractionWidth h : Nat)).natAbs < 2 ^ 31}
      (.invalidArgument .reshapingCoefficientRange) where
  writes c hc w := by
    rw [Set.mem_ofPred_eq] at hc
    have hsigned : 2 * (c.toInt / (2 ^ fractionWidth h : Nat)).natAbs + 1 < 2 ^ 64 := by omega
    rw [putSigned_eq htype (by omega), if_pos hc, signedBits_eq (by omega)]
    exact (appends_putSignedCode hsigned).bind (appends_put (by omega) _) w
  refuses c hc w := (putSigned_eq htype (by omega) w c).trans (if_neg hc)
  reads := recognizes_signed htype h32

theorem isGuardedCode_unsigned (htype : h.coefficientType = Header.fixedPoint)
    (h32 : fractionWidth h ≤ 32) :
    IsGuardedCode (readUnsigned h) (putUnsigned · h ·) (unsignedBits (fractionWidth h))
      {c | c.toNat / 2 ^ fractionWidth h < 2 ^ 32 - 1}
      (.invalidArgument .nlqCoefficientRange) where
  writes c hc w := by
    rw [Set.mem_ofPred_eq] at hc
    have hunsigned : c.toNat / 2 ^ fractionWidth h + 1 < 2 ^ 64 := by omega
    rw [putUnsigned_eq htype (by omega), if_pos hc, unsignedBits_eq (by omega)]
    exact (appends_putUnsignedCode hunsigned).bind (appends_put (by omega) _) w
  refuses c hc w := (putUnsigned_eq htype (by omega) w c).trans (if_neg hc)
  reads := by
    refine (recognizes_unsigned htype h32).congr fun bits c => and_congr_left fun _ => ?_
    rw [Set.mem_ofPred_eq, maxCode]
    omega

/-- **Fixed-point coefficients are a code**, with any number of fraction bits up to 32: the words
whose integer part, rounded down, has an Exp-Golomb code are written and read back, each with the
bits of its one spelling, and all others are refused.  No sum that is formed for a word that is read
leaves the word. -/
theorem isGuardedCode_fixedPoint (htype : h.coefficientType = Header.fixedPoint)
    (h32 : fractionWidth h ≤ 32) :
    IsGuardedCode (readSigned h) (putSigned · h ·) (signedBits (fractionWidth h))
        {c | -2 ^ 31 < c.toInt / 2 ^ fractionWidth h ∧ c.toInt / 2 ^ fractionWidth h < 2 ^ 31}
        (.invalidArgument .reshapingCoefficientRange) ∧
      IsGuardedCode (readUnsigned h) (putUnsigned · h ·) (unsignedBits (fractionWidth h))
        {c | c.toNat / 2 ^ fractionWidth h < 2 ^ 32 - 1} (.invalidArgument .nlqCoefficientRange) ∧
      (∀ r c r', readSigned h r = .ok c r' → IsSignedSum (fractionWidth h) r r' c) ∧
      ∀ r c r', readUnsigned h r = .ok c r' → IsUnsignedSum (fractionWidth h) r r' c := by
  have hvalues : {c : Int64 | (c.toInt / (2 ^ fractionWidth h : Nat)).natAbs < 2 ^ 31} =
      {c | -2 ^ 31 < c.toInt / 2 ^ fractionWidth h ∧ c.toInt / 2 ^ fractionWidth h < 2 ^ 31} := by
    ext c
    rw [Set.mem_ofPred_eq, Set.mem_ofPred_eq, Nat.cast_pow, Nat.cast_ofNat]
    omega
  refine ⟨?_, isGuardedCode_unsigned htype h32, fun _ _ _ => isSignedSum_of_read htype h32,
    fun _ _ _ => isUnsignedSum_of_read htype h32⟩
  rw [← hvalues]
  exact isGuardedCode_signed htype h32

/-- A header of fixed-point coefficients with as many fraction bits as there can be. -/
def widest : Header where
  coefficientLog2Denominator := 32

/-- The words at the ends of the ranges, with all fraction bits, and the words next to them. -/
theorem isGuardedCode_fixedPoint_widest :
    (∃ w, putSigned .empty widest (-0x7fffffff00000000) = .ok w ∧
        w.written = List.replicate 31 false ++ List.replicate 32 true ++ List.replicate 32 false ∧
        ∀ rest, Reads (readSigned widest) w.written rest (-0x7fffffff00000000)) ∧
      putSigned .empty widest (-0x7fffffff00000001) =
        .error (.invalidArgument .reshapingCoefficientRange) ∧
      (∃ w, putUnsigned .empty widest 0xfffffffeffffffff = .ok w ∧
        w.written = List.replicate 31 false ++ List.replicate 32 true ++ List.replicate 32 true ∧
        ∀ rest, Reads (readUnsigned widest) w.written rest 0xfffffffeffffffff) ∧
      putUnsigned .empty widest 0xffffffff00000000 =
        .error (.invalidArgument .nlqCoefficientRange) := by
  obtain ⟨hsigned, hunsigned, -, -⟩ := isGuardedCode_fixedPoint (h := widest) rfl (by decide)
  have hlowest : -2 ^ 31 < (-0x7fffffff00000000 : Int64).toInt / 2 ^ fractionWidth widest ∧
      (-0x7fffffff00000000 : Int64).toInt / 2 ^ fractionWidth widest < 2 ^ 31 := by decide
  have hhighest : (0xfffffffeffffffff : UInt64).toNat / 2 ^ fractionWidth widest < 2 ^ 32 - 1 := by
    decide
  refine ⟨?_, hsigned.refuses _ (fun h => absurd h.1 (by decide)) _, ?_,
    hunsigned.refuses _ (fun h => absurd h (by decide)) _⟩
  · obtain ⟨w, hput, hwritten⟩ := hsigned.writes _ hlowest Writer.empty
    refine ⟨w, hput, hwritten, fun rest => ?_⟩
    rw [hwritten]
    exact hsigned.reads.complete _ _ ⟨hlowest, rfl⟩ rest
  · obtain ⟨w, hput, hwritten⟩ := hunsigned.writes _ hhighest Writer.empty
    refine ⟨w, hput, hwritten, fun rest => ?_⟩
    rw [hwritten]
    exact hunsigned.reads.complete _ _ ⟨hhighest, rfl⟩ rest

end Coefficient

end DolbyVision
