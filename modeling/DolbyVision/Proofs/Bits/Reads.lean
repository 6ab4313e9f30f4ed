/-
**What a read takes and gives.**

`Reads p bits rest a` says that the read `p`, started in front of `bits` and then `rest`, takes
exactly `bits` and gives `a`.  The relation holds of any computation whose state holds a reader, so
that the reads of a single field and those of a decoder with notes are described in one way.  It
says nothing about the other parts of the state but that they stay.

Reads that follow one another take the bits of both; this is `Reads.bind`, from which the reads of
whole records are put together.

Main definitions:

* `DolbyVision.Bits.ReadingState` — states that hold a reader;
* `DolbyVision.Bits.Reads` — the relation;
* `DolbyVision.Bits.lower8`, `lower16`, `lower32`, `lowerSigned16` — what a field of a given width
  keeps of a word.

Main results:

* `DolbyVision.Bits.Reads.bind`, `Reads.guard`, `Reads.lift` — the rules for computations;
* `DolbyVision.Bits.reads_unsignedCode`, `reads_signedCode` — **Exp-Golomb codes are read back**;
* `DolbyVision.Bits.reads_u8`, `reads_u16`, `reads_u32`, `reads_i16` — fields of a fixed width.
-/

import DolbyVision.Bits.Words
import DolbyVision.Proofs.Bits.Exhausted
import DolbyVision.Proofs.Bits.Written

set_option relaxedAutoImplicit false
set_option autoImplicit false

namespace DolbyVision.Bits

/-! ### The relation -/

/-- A state of a computation that reads: it holds a reader, which can be replaced. -/
class ReadingState (σ : Type) where
  reader : σ → Reader
  withReader : σ → Reader → σ
  reader_withReader : ∀ (s : σ) (r : Reader), reader (withReader s r) = r
  withReader_reader : ∀ s : σ, withReader s (reader s) = s
  withReader_withReader : ∀ (s : σ) (r r' : Reader),
    withReader (withReader s r) r' = withReader s r'

instance : ReadingState Reader where
  reader r := r
  withReader _ r := r
  reader_withReader _ _ := rfl
  withReader_reader _ := rfl
  withReader_withReader _ _ _ := rfl

open ReadingState

section Rules

variable {σ α β : Type} [ReadingState σ]

/-- The read `p`, started in front of `bits` and then `rest`, takes `bits` and gives `a`. -/
def Reads (p : EStateM Fault σ α) (bits rest : List Bool) (a : α) : Prop :=
  ∀ s : σ, (reader s).Sound → (reader s).unread = bits ++ rest →
    ∃ r, p s = .ok a (withReader s r) ∧ r.Sound ∧ r.unread = rest

variable {p : EStateM Fault σ α} {f : α → EStateM Fault σ β} {bits bits₁ bits₂ rest : List Bool}
  {a : α} {b : β}

theorem Reads.pure (rest : List Bool) (a : α) :
    Reads (Pure.pure a : EStateM Fault σ α) [] rest a := by
  intro s hsound hunread
  exact ⟨reader s, by rw [withReader_reader]; rfl, hsound, hunread⟩

/-- Reads that follow one another take the bits of both. -/
theorem Reads.bind (h₁ : Reads p bits₁ (bits₂ ++ rest) a) (h₂ : Reads (f a) bits₂ rest b) :
    Reads (p >>= f) (bits₁ ++ bits₂) rest b := by
  intro s hsound hunread
  -- What the first read leaves is what the second one starts from.
  rw [List.append_assoc] at hunread
  obtain ⟨r₁, hrun₁, hsound₁, hunread₁⟩ := h₁ s hsound hunread
  have hreader : reader (withReader s r₁) = r₁ := reader_withReader s r₁
  obtain ⟨r₂, hrun₂, hsound₂, hunread₂⟩ :=
    h₂ (withReader s r₁) (by rwa [hreader]) (by rwa [hreader])
  refine ⟨r₂, ?_, hsound₂, hunread₂⟩
  rw [Run.bind_ok hrun₁, hrun₂, withReader_withReader]

/-- A value that is computed from what is read. -/
theorem Reads.andThen (h : Reads p bits rest a) (g : α → β) :
    Reads (p >>= fun x => Pure.pure (g x)) bits rest (g a) := by
  have hbind : Reads (p >>= fun x => Pure.pure (g x)) (bits ++ []) rest (g a) :=
    Reads.bind h (Reads.pure rest (g a))
  rwa [List.append_nil] at hbind

theorem Reads.map (h : Reads p bits rest a) (g : α → β) : Reads (g <$> p) bits rest (g a) := by
  intro s hsound hunread
  obtain ⟨r, hrun, hsound', hrest⟩ := h s hsound hunread
  refine ⟨r, ?_, hsound', hrest⟩
  change EStateM.map g p s = _
  rw [EStateM.map, hrun]

/-- A check that passes leaves what follows it. -/
theorem Reads.guard {c : Prop} [Decidable c] {fault : Fault} {g : Unit → EStateM Fault σ β}
    (hc : ¬ c) (h : Reads (g ()) bits rest b) :
    Reads (if c then (throw fault : EStateM Fault σ Unit) >>= g else g ()) bits rest b := by
  rwa [if_neg hc]

/-- A computation without a reader takes nothing. -/
theorem Reads.ofExcept {x : Except Fault α} (rest : List Bool) (h : x = .ok a) :
    Reads (liftM x : EStateM Fault σ α) [] rest a := by
  intro s hsound hunread
  exact ⟨reader s, by rw [withReader_reader]; exact Run.lift_ok h, hsound, hunread⟩

/-- The relation for reads of a reader alone, as the facts about a reader give it. -/
theorem Reads.ofReader {p : BitParser α}
    (h : ∀ r : Reader, r.Sound → r.unread = bits ++ rest →
      ∃ r', p r = .ok a r' ∧ r'.Sound ∧ r'.unread = rest) : Reads p bits rest a := h

/-- A read that takes the next bits takes those that stand in front. -/
theorem Reads.ofTakes {p : BitParser α} {n : Nat} {k : List Bool → α}
    (hp : Reader.Takes p n k) (hn : bits.length = n) : Reads p bits rest (k bits) := by
  intro r hsound hunread
  have hunread' : r.unread = bits ++ rest := hunread
  obtain ⟨r', hrun, hsound', hrest⟩ := hp.eq r hsound (by simp [hunread', hn])
  rw [hunread', List.take_left' hn] at hrun
  rw [hunread', List.drop_left' hn] at hrest
  exact ⟨r', hrun, hsound', hrest⟩

end Rules

/-! ### Fields of a fixed width -/

section Fields

variable (rest : List Bool)

theorem reads_bits {width : Nat} (h64 : width ≤ 64) (n : Nat) :
    Reads (Reader.bits width) (toBits width n) rest (n % 2 ^ width) := by
  rw [← ofBits_toBits width n]
  exact .ofTakes (Reader.takes_bits h64) (length_toBits ..)

theorem reads_bits32 {width : Nat} (h32 : width ≤ 32) (n : Nat) :
    Reads (Reader.bits32 width) (toBits width n) rest (n % 2 ^ width) := by
  rw [← ofBits_toBits width n]
  exact .ofTakes (Reader.takes_bits32 h32) (length_toBits ..)

theorem reads_flag (b : Bool) : Reads Reader.flag [b] rest b :=
  Reads.ofReader fun _ hsound hunread => Reader.flag_eq hsound hunread

/-- What a field of a given width keeps of a byte. -/
def lower8 (width : Nat) (v : UInt8) : UInt8 := UInt8.ofNat (v.toNat % 2 ^ width)

/-- What a field of a given width keeps of a word of 16 bits. -/
def lower16 (width : Nat) (v : UInt16) : UInt16 := UInt16.ofNat (v.toNat % 2 ^ width)

/-- What a field of a given width keeps of a word of 32 bits. -/
def lower32 (width : Nat) (v : UInt32) : UInt32 := UInt32.ofNat (v.toNat % 2 ^ width)

/-- What a field of a given width keeps of a signed word of 16 bits. -/
def lowerSigned16 (width : Nat) (v : Int16) : Int16 :=
  Int16.ofInt (Int.bmod ((v.toInt % (2 ^ width : Nat)).toNat : Int) (2 ^ width))

theorem lower8_eq_self {width : Nat} {v : UInt8} (h : v.toNat < 2 ^ width) :
    lower8 width v = v := by
  rw [lower8, Nat.mod_eq_of_lt h, UInt8.ofNat_toNat]

theorem lower16_eq_self {width : Nat} {v : UInt16} (h : v.toNat < 2 ^ width) :
    lower16 width v = v := by
  rw [lower16, Nat.mod_eq_of_lt h, UInt16.ofNat_toNat]

@[simp] theorem lower8_eight (v : UInt8) : lower8 8 v = v := lower8_eq_self v.toNat_lt

@[simp] theorem lower16_sixteen (v : UInt16) : lower16 16 v = v := lower16_eq_self v.toNat_lt

@[simp] theorem lower32_thirtyTwo (v : UInt32) : lower32 32 v = v := by
  rw [lower32, Nat.mod_eq_of_lt v.toNat_lt, UInt32.ofNat_toNat]

theorem lowerSigned16_eq_self {width : Nat} {v : Int16} (hlo : -(2 ^ width : Nat) ≤ v.toInt)
    (hhi : v.toInt < (2 ^ width : Nat)) : lowerSigned16 (width + 1) v = v := by
  rw [lowerSigned16, bmod_emod_of_fits hlo hhi, Int16.ofInt_toInt]

@[simp] theorem lowerSigned16_sixteen (v : Int16) : lowerSigned16 16 v = v := by
  change lowerSigned16 (15 + 1) v = v
  exact lowerSigned16_eq_self v.le_toInt v.toInt_lt

theorem reads_u8 {width : Nat} (h32 : width ≤ 32) (v : UInt8) :
    Reads (Reader.u8 width) (toBits width v.toNat) rest (lower8 width v) :=
  (reads_bits32 rest h32 v.toNat).andThen UInt8.ofNat

theorem reads_u16 {width : Nat} (h32 : width ≤ 32) (v : UInt16) :
    Reads (Reader.u16 width) (toBits width v.toNat) rest (lower16 width v) :=
  (reads_bits32 rest h32 v.toNat).andThen UInt16.ofNat

theorem reads_u32 {width : Nat} (h32 : width ≤ 32) (v : UInt32) :
    Reads (Reader.u32 width) (toBits width v.toNat) rest (lower32 width v) :=
  (reads_bits32 rest h32 v.toNat).andThen UInt32.ofNat

/-- A two's complement field is read as the integer that its bits stand for. -/
theorem reads_signed32 {width : Nat} (hpos : 0 < width) (h32 : width ≤ 32) (n : Nat) :
    Reads (Reader.signed32 width) (toBits width n) rest (Int.bmod (n : Int) (2 ^ width)) := by
  have hvalue := Reader.extended_eq hpos h32 (Nat.mod_lt n (Nat.two_pow_pos width))
  rw [Int.natCast_mod, Int.emod_bmod] at hvalue
  have h : Reads (Reader.signed32 width) (toBits width n ++ []) rest _ :=
    Reads.bind (reads_bits32 ([] ++ rest) h32 n) (Reads.ofExcept rest hvalue)
  rwa [List.append_nil] at h

theorem reads_i16 {width : Nat} (hpos : 0 < width) (h32 : width ≤ 32) (v : Int16) :
    Reads (Reader.i16 width) (Field.bits [Field.ofInt width v.toInt]) rest
      (lowerSigned16 width v) := by
  have h := (reads_signed32 rest hpos h32 (v.toInt % (2 ^ width : Nat)).toNat).andThen Int16.ofInt
  have hbits : Field.bits [Field.ofInt width v.toInt] =
      toBits width (v.toInt % (2 ^ width : Nat)).toNat := by
    simp [Field.ofInt, Nat.one_shiftLeft]
  rw [hbits]
  exact h

/-! ### Moves -/

theorem reads_skip (bits : List Bool) : Reads (Reader.skip bits.length) bits rest () :=
  .ofTakes (Reader.takes_skip bits.length) rfl

theorem reads_realign {bits : List Bool} (h : (bits ++ rest).length % 8 = bits.length) :
    Reads Reader.realign bits rest () := by
  refine Reads.ofReader fun r hsound hunread => ?_
  obtain ⟨r', hrun, hsound', hrest⟩ := Reader.realign_eq hsound
  exact ⟨r', hrun, hsound', by rw [hrest, hunread, h, List.drop_left' rfl]⟩

/-! ### Exp-Golomb codes -/

/-- The largest number that has a code of at most 63 bits. -/
def maxCode : Nat := 2 ^ 32 - 2

/-- Every byte has one. -/
theorem byte_le_maxCode (b : UInt8) : b.toNat ≤ maxCode := by
  have hlt := b.toNat_lt
  unfold maxCode
  omega

/-- The code of a number is its unary length and the bits below its highest one. -/
theorem unsignedCodeBits_eq (n : Nat) :
    unsignedCodeBits n =
      List.replicate (n + 1).log2 false ++ (true :: toBits (n + 1).log2 (n + 1)) := by
  have htop : (n + 1).testBit (n + 1).log2 = true := by
    rw [Nat.testBit_eq_decide_div_mod_eq]
    have hlo := Nat.log2_self_le (n := n + 1) (by omega)
    have hhi := Nat.lt_log2_self (n := n + 1)
    have hdiv : (n + 1) / 2 ^ (n + 1).log2 = 1 := by
      refine Nat.div_eq_of_lt_le (by omega) ?_
      rw [pow_succ] at hhi
      omega
    rw [hdiv]
    rfl
  rw [unsignedCodeBits, toBits_succ, htop]

/-- **A code is read back**, if it is not longer than a reader accepts. -/
theorem reads_unsignedCode {n : Nat} (hn : n ≤ maxCode) :
    Reads Reader.unsignedCode (unsignedCodeBits n) rest n := by
  have hmax : n + 1 < 2 ^ 32 := by unfold maxCode at hn; omega
  have hlog : (n + 1).log2 < 32 := (Nat.log2_lt (by omega)).2 hmax
  have hlo := Nat.log2_self_le (n := n + 1) (by omega)
  have hhi := Nat.lt_log2_self (n := n + 1)
  generalize hk : (n + 1).log2 = k at *
  have hvalue : 2 ^ k - 1 + (n + 1) % 2 ^ k = n := by
    have hdiv : (n + 1) / 2 ^ k = 1 :=
      Nat.div_eq_of_lt_le (by omega) (by rw [pow_succ] at hhi; omega)
    have hsum := Nat.div_add_mod (n + 1) (2 ^ k)
    rw [hdiv] at hsum
    omega
  have hunary : Reads Reader.unary (List.replicate k false ++ [true])
      (toBits k (n + 1) ++ rest) k := by
    refine Reads.ofReader fun r hsound hunread => ?_
    exact Reader.unary_eq hsound (by simpa using hunread) (by omega)
  have hcode : unsignedCodeBits n =
      (List.replicate k false ++ [true]) ++ (toBits k (n + 1) ++ []) := by
    rw [unsignedCodeBits_eq, hk]
    simp
  have hfit : Reader.codeValue k ((n + 1) % 2 ^ k) = .ok n := by
    rw [Reader.codeValue_eq (by omega) (Nat.mod_lt _ (Nat.two_pow_pos k)), hvalue]
  -- A unary length comes first, and then as many bits.
  rw [hcode]
  refine Reads.bind (by rwa [List.append_nil]) (Reads.guard (by omega) ?_)
  exact (reads_bits32 _ (by omega) (n + 1)).bind (Reads.ofExcept rest hfit)

theorem signedCode_le {n : Int} (hn : n.natAbs < 2 ^ 31) : signedCode n ≤ maxCode := by
  unfold signedCode maxCode
  split <;> omega

/-- **A signed code is read back.** -/
theorem reads_signedCode {n : Int} (hn : n.natAbs < 2 ^ 31) :
    Reads Reader.signedCode (unsignedCodeBits (signedCode n)) rest n := by
  have hmagnitude : signedCode n / 2 + signedCode n % 2 = n.natAbs := by
    unfold signedCode
    split <;> omega
  have hvalue : (if signedCode n % 2 = 1 then (n.natAbs : Int) else -(n.natAbs : Int)) = n := by
    unfold signedCode
    split <;> split <;> omega
  have hfit : Checked.within 31 (signedCode n / 2 + signedCode n % 2) = .ok n.natAbs := by
    rw [hmagnitude]
    exact Checked.within_of_lt (by rw [Nat.one_shiftLeft]; exact hn)
  have hread : Reads
      (liftM (Checked.within 31 (signedCode n / 2 + signedCode n % 2)) : BitParser Nat)
      [] rest n.natAbs := Reads.ofExcept rest hfit
  have hrest := hread.andThen fun magnitude =>
    if signedCode n % 2 = 1 then (magnitude : Int) else -(magnitude : Int)
  rw [hvalue] at hrest
  have hbind := (reads_unsignedCode ([] ++ rest) (signedCode_le hn)).bind
    (f := fun code => do
      let magnitude ← liftM (Checked.within 31 (code / 2 + code % 2))
      return if code % 2 = 1 then (magnitude : Int) else -(magnitude : Int)) hrest
  rwa [List.append_nil] at hbind

end Fields

end DolbyVision.Bits
