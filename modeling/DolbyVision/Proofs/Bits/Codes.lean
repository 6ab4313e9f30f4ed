/-
**Exp-Golomb codes and their values.**

A code is read from wherever a reader stands and written to wherever a writer has come to.  This
module fits the two together: what a reader takes when it gives a value is what a writer appends
for that value, so that the values that are given and the bits that are taken correspond to each
other one to one.

A code is a run of zeros, a set bit and as many more bits as zeros.  With a run of 31 zeros at
most, the numbers that have a code are those up to `2 ^ 32 - 2`, and the integers those from
`-(2 ^ 31 - 1)` to `2 ^ 31 - 1`.  The one word of 32 bits that is left over in each case has a code
as well, of 65 bits, which is written but not read.

The reader counts its zeros before it knows that they are too many.  The counter is a word of 32
bits, and it is all that could overflow.

Main definitions:

* `DolbyVision.Bits.takenBits` — the bit strings that a read takes;
* `DolbyVision.Bits.Decides` — a read that fails for a good reason, or stands in front of a code;
* `DolbyVision.Bits.IsCode` — a read and a write that are each other's converse.

Main results:

* `DolbyVision.Bits.Recognizes.given_eq`, `Recognizes.bijOn` — values and the bits they are read
  from;
* `DolbyVision.Bits.decides_unsignedCode`, `decides_signedCode` — **what is not a code is refused**;
* `DolbyVision.Bits.isCode_expGolomb` — **Exp-Golomb codes are codes**.
-/

import DolbyVision.Proofs.Bits.Cursor
import DolbyVision.Proofs.Bits.Local
import DolbyVision.Proofs.Bits.Recognizes
import DolbyVision.Proofs.Checked
import Mathlib.Data.Set.Function

set_option relaxedAutoImplicit false
set_option autoImplicit false

namespace DolbyVision.Bits

/-! ### Values and the bits they are read from -/

/-- The bit strings that a read takes off what stands before a reader. -/
def takenBits {α : Type} (p : BitParser α) : Set (List Bool) :=
  {bits | ∃ r a r', r.Sound ∧ p r = .ok a r' ∧ r.unread = bits ++ r'.unread}

/-- Any bits stand at the start of some byte string. -/
theorem exists_sound (bits : List Bool) :
    ∃ (r : Reader) (rest : List Bool), r.Sound ∧ r.unread = bits ++ rest := by
  obtain ⟨n, hn⟩ := dvd_add_padding bits.length
  have hlength : (bits ++ List.replicate (padding bits.length) false).length = 8 * n := by
    rw [List.length_append, List.length_replicate, hn]
  obtain ⟨bytes, -, hbytes⟩ := exists_ofBytes_eq hlength
  exact ⟨_, _, Reader.sound_ofBytes bytes, (Reader.unread_ofBytes bytes).trans hbytes⟩

section Recognized

variable {α : Type} {p : BitParser α} {values : Set α} {code : α → List Bool}

/-- What is read from the codes of some values is those values. -/
theorem Recognizes.given_eq (h : Recognizes p fun bits a => a ∈ values ∧ bits = code a) :
    {a | ∃ r r', r.Sound ∧ p r = .ok a r'} = values := by
  ext a
  constructor
  · rintro ⟨r, r', hsound, hrun⟩
    obtain ⟨-, bits, -, ha, -⟩ := h.sound r a r' hsound hrun
    exact ha
  · intro ha
    obtain ⟨r, rest, hsound, hunread⟩ := exists_sound (code a)
    obtain ⟨r', hrun, -⟩ := h.complete _ a ⟨ha, rfl⟩ rest r hsound hunread
    exact ⟨r, r', hsound, hrun⟩

/-- **Values and the bits that they are read from correspond to each other one to one.** -/
theorem Recognizes.bijOn (h : Recognizes p fun bits a => a ∈ values ∧ bits = code a) :
    Set.BijOn code values (takenBits p) := by
  refine ⟨fun a ha => ?_, fun a ha b hb hcode => ?_, ?_⟩
  · obtain ⟨r, rest, hsound, hunread⟩ := exists_sound (code a)
    obtain ⟨r', hrun, -, hrest⟩ := h.complete _ a ⟨ha, rfl⟩ rest r hsound hunread
    exact ⟨r, a, r', hsound, hrun, by rw [hunread, ← hrest]⟩
  · -- Both are what is read from the same bits.
    obtain ⟨r, rest, hsound, hunread⟩ := exists_sound (code a)
    obtain ⟨r₁, hrun₁, -⟩ := h.complete _ a ⟨ha, rfl⟩ rest r hsound hunread
    obtain ⟨r₂, hrun₂, -⟩ := h.complete _ b ⟨hb, hcode⟩ rest r hsound hunread
    rw [hrun₁] at hrun₂
    exact (EStateM.Result.ok.inj hrun₂).1
  · rintro bits ⟨r, a, r', hsound, hrun, hunread⟩
    obtain ⟨-, bits', hunread', ha, rfl⟩ := h.sound r a r' hsound hrun
    exact ⟨a, ha, List.append_cancel_right (hunread'.symm.trans hunread)⟩

end Recognized

/-! ### The property -/

section Codes

variable {α : Type}

/-- A read in front of a run of zeros that a word of 32 bits can count stands in front of the code
of one of the values, or it fails, and with no defect. -/
def Decides (p : BitParser α) (number : α → Nat) (values : Set α) : Prop :=
  ∀ r : Reader, r.Sound → zerosOf r.unread < 2 ^ 32 →
    (∃ a ∈ values, ∃ rest, r.unread = unsignedCodeBits (number a) ++ rest) ∨
      ∃ fault r', p r = .error fault r' ∧ ¬ fault.IsDefect

/-- The read `p` and the write `put` are each other's converse on some `values` among the `words`
of 32 bits, of which each is coded under a number. -/
structure IsCode (p : BitParser α) (put : Writer → α → Except Fault Writer) (number : α → Nat)
    (values words : Set α) : Prop where
  /-- Every word is written, wherever the writer has come to. -/
  accepts : ∀ w, ∀ a ∈ words, ∃ w', put w a = .ok w'
  /-- What is written is the code of the number. -/
  writes : ∀ w a w', put w a = .ok w' → w'.written = w.written ++ unsignedCodeBits (number a)
  /-- Wherever a reader stands, what it takes when it gives a value is what is written for that
  value, and what is written for a value is taken and gives it. -/
  reads : Recognizes p fun bits a => a ∈ values ∧ bits = unsignedCodeBits (number a)
  /-- The values are those that are given. -/
  given : {a | ∃ r r', r.Sound ∧ p r = .ok a r'} = values
  /-- The values and the bits that are taken correspond to each other one to one. -/
  bijective : Set.BijOn (fun a => unsignedCodeBits (number a)) values (takenBits p)
  /-- A word that is not among the values is written with 65 bits, which are refused. -/
  refused : ∀ a ∈ words \ values, (unsignedCodeBits (number a)).length = 65 ∧
    ∀ (r : Reader) (rest : List Bool), r.Sound →
      r.unread = unsignedCodeBits (number a) ++ rest → ∃ r', p r = .error .codeTooLong r'
  /-- No number that is formed for writing a word has more than 33 bits. -/
  fits : ∀ a ∈ words, number a + 1 < 2 ^ 33
  /-- In front of the code of a word, whether it is read or refused, no sum, difference, negation
  or shift of the reader leaves its range. -/
  clean : ∀ a ∈ words, ∀ (r : Reader) (rest : List Bool) fault r', r.Sound →
    r.unread = unsignedCodeBits (number a) ++ rest → p r = .error fault r' → ¬ fault.IsDefect
  /-- In front of bits that are no code at all, only the counter of zeros could overflow, and for
  that there have to be `2 ^ 32` of them in a row. -/
  counts : ∀ (r : Reader) fault r', r.Sound → p r = .error fault r' → fault.IsDefect →
    2 ^ 32 ≤ zerosOf r.unread

variable {p : BitParser α} {put : Writer → α → Except Fault Writer} {number : α → Nat}
  {values words : Set α}

/-- A read that gives a value has stood in front of its code. -/
theorem Decides.recognizes (hdecides : Decides p number values)
    (hcounted : ∀ r a r', r.Sound → p r = .ok a r' → zerosOf r.unread < 2 ^ 32)
    (hreads : ∀ a ∈ values, ∀ rest, Reads p (unsignedCodeBits (number a)) rest a) :
    Recognizes p fun bits a => a ∈ values ∧ bits = unsignedCodeBits (number a) where
  sound r a r' hsound hrun := by
    rcases hdecides r hsound (hcounted r a r' hsound hrun) with
      ⟨b, hb, rest, hunread⟩ | ⟨fault, r₁, hfail, -⟩
    · obtain ⟨r₁, hrun₁, hsound₁, hrest⟩ := hreads b hb rest r hsound hunread
      rw [hrun] at hrun₁
      obtain ⟨rfl, rfl⟩ := EStateM.Result.ok.inj hrun₁
      exact ⟨hsound₁, _, by rw [hunread, hrest], hb, rfl⟩
    · rw [hrun] at hfail
      cases hfail
  complete bits a := by
    rintro ⟨ha, rfl⟩ rest
    exact hreads a ha rest

/-- A read that comes upon a defect has more zeros in front of it than it can count. -/
theorem Decides.counts (hdecides : Decides p number values)
    (hreads : ∀ a ∈ values, ∀ rest, Reads p (unsignedCodeBits (number a)) rest a) {r r' : Reader}
    {fault : Fault} (hsound : r.Sound) (hfail : p r = .error fault r') (hfault : fault.IsDefect) :
    2 ^ 32 ≤ zerosOf r.unread := by
  by_contra hlt
  rcases hdecides r hsound (Nat.not_le.1 hlt) with
    ⟨a, ha, rest, hunread⟩ | ⟨fault', r₁, hfail', hclean⟩
  · obtain ⟨r₁, hrun, -⟩ := hreads a ha rest r hsound hunread
    rw [hfail] at hrun
    cases hrun
  · rw [hfail] at hfail'
    cases hfail'
    exact hclean hfault

/-- A code begins with the zeros that say how long it is. -/
theorem zerosOf_unsignedCodeBits (n : Nat) (rest : List Bool) :
    zerosOf (unsignedCodeBits n ++ rest) = (n + 1).log2 := by
  rw [unsignedCodeBits_eq, List.append_assoc, List.cons_append, zerosOf_run]

/-- The code of a word that is out of reach has 32 zeros and 65 bits. -/
theorem unsignedCodeBits_eq_of_le {n : Nat} (hlo : 2 ^ 32 ≤ n + 1) (hhi : n + 1 < 2 ^ 33) :
    unsignedCodeBits n = List.replicate 32 false ++ true :: toBits 32 (n + 1) := by
  have hlog : (n + 1).log2 = 32 := (Nat.log2_eq_iff (by omega)).2 ⟨hlo, hhi⟩
  rw [unsignedCodeBits_eq, hlog]

/-- What a read and a write have to have in common to be each other's converse. -/
theorem Decides.isCode (hdecides : Decides p number values)
    (hcounted : ∀ r a r', r.Sound → p r = .ok a r' → zerosOf r.unread < 2 ^ 32)
    (hreads : ∀ a ∈ values, ∀ rest, Reads p (unsignedCodeBits (number a)) rest a)
    (hrefused : ∀ (r : Reader) (z : Nat) (tail : List Bool), r.Sound →
      r.unread = List.replicate z false ++ true :: tail → 31 < z → z < 2 ^ 32 →
        ∃ r', p r = .error .codeTooLong r')
    (haccepts : ∀ w, ∀ a ∈ words, ∃ w', put w a = .ok w')
    (hwrites : ∀ w a w', put w a = .ok w' → w'.written = w.written ++ unsignedCodeBits (number a))
    (hfits : ∀ a ∈ words, number a + 1 < 2 ^ 33)
    (hbeyond : ∀ a ∈ words \ values, 2 ^ 32 ≤ number a + 1) :
    IsCode p put number values words where
  accepts := haccepts
  writes := hwrites
  reads := hdecides.recognizes hcounted hreads
  given := (hdecides.recognizes hcounted hreads).given_eq
  bijective := (hdecides.recognizes hcounted hreads).bijOn
  refused a ha := by
    rw [unsignedCodeBits_eq_of_le (hbeyond a ha) (hfits a ha.1)]
    refine ⟨by simp, fun r rest hsound hunread => ?_⟩
    rw [List.append_assoc] at hunread
    exact hrefused r 32 _ hsound hunread (by decide) (by decide)
  fits := hfits
  clean a ha r rest fault r' hsound hunread hfail hfault := by
    have hzeros := hdecides.counts hreads hsound hfail hfault
    have hlog : (number a + 1).log2 < 33 := (Nat.log2_lt (Nat.succ_ne_zero _)).2 (hfits a ha)
    rw [hunread, zerosOf_unsignedCodeBits] at hzeros
    omega
  counts _ _ _ hsound hfail hfault := hdecides.counts hreads hsound hfail hfault

end Codes

/-! ### Unsigned codes -/

theorem zerosOf_replicate (n : Nat) : zerosOf (List.replicate n false) = n := by
  rw [zerosOf, List.takeWhile_replicate]
  simp

namespace Reader

variable {r r' : Reader}

/-- **A run of 32 zeros or more is refused.** -/
theorem unsignedCode_refused {z : Nat} {tail : List Bool} (hsound : r.Sound)
    (hunread : r.unread = List.replicate z false ++ true :: tail) (hlong : 31 < z)
    (hfit : z < 2 ^ 32) : ∃ r', unsignedCode r = .error .codeTooLong r' := by
  obtain ⟨r₁, hrun, -, -⟩ := unary_eq hsound hunread hfit
  refine ⟨r₁, ?_⟩
  unfold unsignedCode
  rw [Run.bind_ok hrun, if_pos hlong]
  rfl

/-- The zeros of a code that is read have been counted. -/
theorem zerosOf_lt_of_unsignedCode {n : Nat} (hsound : r.Sound)
    (hrun : unsignedCode r = .ok n r') : zerosOf r.unread < 2 ^ 32 := by
  obtain ⟨zeros, r₁, hunary, -⟩ := Run.ok_of_bind hrun
  obtain ⟨tail, hunread, hfit, -⟩ := unary_ok hsound hunary
  rwa [hunread, zerosOf_run]

end Reader

/-- A suffix of `z` bits behind `z` zeros and a set bit makes a code. -/
theorem unsignedCodeBits_of_suffix (suffix : List Bool) :
    unsignedCodeBits (2 ^ suffix.length - 1 + ofBits suffix) =
      List.replicate suffix.length false ++ true :: suffix := by
  have hpos := Nat.two_pow_pos suffix.length
  have hlt := ofBits_lt suffix
  have hsucc : 2 ^ suffix.length - 1 + ofBits suffix + 1 = 2 ^ suffix.length + ofBits suffix := by
    omega
  have hlog : (2 ^ suffix.length + ofBits suffix).log2 = suffix.length :=
    (Nat.log2_eq_iff (by omega)).2 ⟨by omega, by rw [pow_succ]; omega⟩
  have hsuffix : toBits suffix.length (2 ^ suffix.length + ofBits suffix) = suffix := by
    rw [toBits_congr (Nat.add_mod_left ..), toBits_ofBits]
  rw [unsignedCodeBits_eq, hsucc, hlog, hsuffix]

/-- A run of at most 31 zeros with as many bits behind its set bit begins with a code. -/
theorem exists_unsignedCodeBits_eq {z : Nat} {tail : List Bool} (hshort : ¬ 31 < z)
    (hlong : z ≤ tail.length) :
    ∃ n ≤ maxCode, List.replicate z false ++ true :: tail = unsignedCodeBits n ++ tail.drop z := by
  have hlength : (tail.take z).length = z := by rw [List.length_take, Nat.min_eq_left hlong]
  have hcode := unsignedCodeBits_of_suffix (tail.take z)
  have hsuffix := ofBits_lt (tail.take z)
  have hpow : 2 ^ z ≤ 2 ^ 31 := Nat.pow_le_pow_right (by decide) (Nat.not_lt.1 hshort)
  rw [hlength] at hcode hsuffix
  refine ⟨2 ^ z - 1 + ofBits (tail.take z), ?_, ?_⟩
  · rw [maxCode]
    omega
  · rw [hcode, List.append_assoc, List.cons_append, List.take_append_drop]

/-- **What is not an unsigned code is refused**: a run of zeros has no end or is too long, or what
follows it is too short. -/
theorem decides_unsignedCode : Decides Reader.unsignedCode id {n | n ≤ maxCode} := by
  intro r hsound hcount
  rcases zeros_or_run r.unread with hzeros | ⟨z, tail, hunread⟩
  · have hlength : r.unread.length < 2 ^ 32 := by rwa [hzeros, zerosOf_replicate] at hcount
    obtain ⟨r', hfail⟩ := Reader.unary_short hsound hzeros hlength
    exact Or.inr ⟨_, r', Run.bind_error hfail, not_false⟩
  · rw [hunread, zerosOf_run] at hcount
    by_cases hlong : 31 < z
    · obtain ⟨r', hfail⟩ := Reader.unsignedCode_refused hsound hunread hlong hcount
      exact Or.inr ⟨_, r', hfail, not_false⟩
    obtain ⟨r₁, hunary, hsound₁, hrest⟩ := Reader.unary_eq hsound hunread hcount
    by_cases hshort : tail.length < z
    · rw [← hrest] at hshort
      obtain ⟨r', hfail⟩ := Reader.bits32_short hsound₁ (show z ≤ 32 by omega) hshort
      refine Or.inr ⟨.unexpectedEnd, r', ?_, not_false⟩
      unfold Reader.unsignedCode
      rw [Run.bind_ok hunary, if_neg hlong]
      exact Run.bind_error hfail
    · obtain ⟨n, hn, hcode⟩ := exists_unsignedCodeBits_eq hlong (Nat.not_lt.1 hshort)
      exact Or.inl ⟨n, hn, tail.drop z, hunread.trans hcode⟩

/-! ### Signed codes -/

/-- Every number that has a code is that of an integer. -/
theorem exists_signedCode_eq {n : Nat} (hn : n ≤ maxCode) :
    ∃ v : Int, v.natAbs < 2 ^ 31 ∧ signedCode v = n := by
  rw [maxCode] at hn
  rcases Nat.even_or_odd' n with ⟨k, rfl | rfl⟩
  · refine ⟨-k, by omega, ?_⟩
    rw [signedCode, if_neg (by omega)]
    omega
  · refine ⟨k + 1, by omega, ?_⟩
    rw [signedCode, if_pos (by omega)]
    omega

/-- **What is not a signed code is refused**, for it is not an unsigned one. -/
theorem decides_signedCode :
    Decides Reader.signedCode signedCode {v | v.natAbs < 2 ^ 31} := by
  intro r hsound hcount
  rcases decides_unsignedCode r hsound hcount with
    ⟨n, hn, rest, hunread⟩ | ⟨fault, r', hfail, hclean⟩
  · obtain ⟨v, hv, rfl⟩ := exists_signedCode_eq hn
    exact Or.inl ⟨v, hv, rest, hunread⟩
  · exact Or.inr ⟨fault, r', Run.bind_error hfail, hclean⟩

theorem isCode_unsignedCode :
    IsCode Reader.unsignedCode Writer.putUnsignedCode id {n | n ≤ maxCode}
      (Set.range UInt32.toNat) := by
  refine decides_unsignedCode.isCode (fun r n r' => Reader.zerosOf_lt_of_unsignedCode)
    (fun n hn rest => reads_unsignedCode rest hn)
    (fun r z tail => Reader.unsignedCode_refused) ?_
    (fun w n w' => Writer.written_of_putUnsignedCode) ?_ ?_
  · rintro w _ ⟨word, rfl⟩
    have hlt := word.toNat_lt
    obtain ⟨w', hput, -⟩ := appends_putUnsignedCode (by omega : word.toNat + 1 < 2 ^ 64) w
    exact ⟨w', hput⟩
  · rintro _ ⟨word, rfl⟩
    have hlt := word.toNat_lt
    rw [id]
    omega
  · rintro n ⟨-, hn⟩
    rw [Set.mem_ofPred_eq, maxCode] at hn
    rw [id]
    omega

theorem isCode_signedCode :
    IsCode Reader.signedCode Writer.putSignedCode signedCode {v | v.natAbs < 2 ^ 31}
      (Set.range Int32.toInt) := by
  refine decides_signedCode.isCode (fun r v r' hsound hrun => ?_)
    (fun v hv rest => reads_signedCode rest hv) (fun r z tail hsound hunread hlong hfit => ?_) ?_
    (fun w v w' => Writer.written_of_putSignedCode) ?_ ?_
  · obtain ⟨n, r₁, hcode, -⟩ := Run.ok_of_bind hrun
    exact Reader.zerosOf_lt_of_unsignedCode hsound hcode
  · obtain ⟨r', hfail⟩ := Reader.unsignedCode_refused hsound hunread hlong hfit
    exact ⟨r', Run.bind_error hfail⟩
  · rintro w _ ⟨word, rfl⟩
    have hlo := word.le_toInt
    have hhi := word.toInt_lt
    obtain ⟨w', hput, -⟩ :=
      appends_putSignedCode (by omega : 2 * word.toInt.natAbs + 1 < 2 ^ 64) w
    exact ⟨w', hput⟩
  · rintro _ ⟨word, rfl⟩
    have hlo := word.le_toInt
    have hhi := word.toInt_lt
    unfold signedCode
    split <;> omega
  · rintro _ ⟨⟨word, rfl⟩, hv⟩
    have hlo := word.le_toInt
    have hhi := word.toInt_lt
    rw [Set.mem_ofPred_eq] at hv
    unfold signedCode
    split <;> omega

/-! ### Both codes -/

/-- **Exp-Golomb codes are codes**: unsigned ones for the words up to `2 ^ 32 - 2`, and signed ones
for the words from `-(2 ^ 31 - 1)` to `2 ^ 31 - 1`.  What is read there is what is written, and the
word that is left over, `2 ^ 32 - 1` or `-2 ^ 31`, is refused.  Nothing overflows when a word is
written, nor in front of the code of any word.  What is no code may overflow one thing, the counter
of the zeros, and only with `2 ^ 32` of them in a row; this is the bound in `IsCode.counts`. -/
theorem isCode_expGolomb :
    IsCode Reader.unsignedCode Writer.putUnsignedCode id {n | n ≤ 2 ^ 32 - 2}
        (Set.range UInt32.toNat) ∧
      IsCode Reader.signedCode Writer.putSignedCode signedCode
        {v | -(2 ^ 31 - 1) ≤ v ∧ v ≤ 2 ^ 31 - 1} (Set.range Int32.toInt) := by
  have hvalues : {v : Int | v.natAbs < 2 ^ 31} = {v | -(2 ^ 31 - 1) ≤ v ∧ v ≤ 2 ^ 31 - 1} := by
    ext v
    rw [Set.mem_ofPred_eq, Set.mem_ofPred_eq]
    omega
  refine ⟨isCode_unsignedCode, ?_⟩
  rw [← hvalues]
  exact isCode_signedCode

end DolbyVision.Bits
