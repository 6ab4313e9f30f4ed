/-
**What a writer has written.**

`Writer.written` is the list of all bits that a writer has taken.  Each write appends bits to that
list, at any position, and this module says which, and when it succeeds: a field has to fit in 64
bits, and the successor of a number that is coded has to fit in a word.  Later modules know a writer
by `written` alone.

Main definitions:

* `DolbyVision.Bits.unsignedCodeBits`, `DolbyVision.Bits.signedCode` — the bits of an Exp-Golomb
  code, and the number under which an integer is coded;
* `DolbyVision.Bits.Field.bits` — the bits of a layout;
* `DolbyVision.Bits.padding` — the number of bits up to the next byte boundary;
* `DolbyVision.Bits.Appends` — a write that succeeds everywhere and appends given bits.

Main results:

* `DolbyVision.Bits.appends_put` — **a field is appended**, also across byte boundaries;
* `DolbyVision.Bits.appends_putBytes` — **a byte string is appended**, also if it is copied;
* `DolbyVision.Bits.appends_putFlag`, `appends_putFields`, `appends_putUnsignedCode`,
  `appends_putSignedCode` — what the other writes append;
* `DolbyVision.Bits.Writer.written_of_put`, `written_of_putFields`, `written_of_putUnsignedCode`,
  `written_of_putSignedCode` — what a write has appended if it succeeded;
* `DolbyVision.Bits.Writer.exists_realign`, `exists_finish` — a boundary is always reached, and the
  finished bytes hold what was written, and zeros up to the boundary.
-/

import DolbyVision.Bits.Writer
import DolbyVision.Proofs.Bits.Spelling
import DolbyVision.Proofs.Checked

set_option relaxedAutoImplicit false
set_option autoImplicit false

namespace DolbyVision.Bits

/-! ### Bits of codes and layouts -/

/-- The bits of the unsigned Exp-Golomb code of a number. -/
def unsignedCodeBits (n : Nat) : List Bool :=
  List.replicate (n + 1).log2 false ++ toBits ((n + 1).log2 + 1) (n + 1)

theorem length_unsignedCodeBits (n : Nat) :
    (unsignedCodeBits n).length = 2 * (n + 1).log2 + 1 := by
  rw [unsignedCodeBits, List.length_append, List.length_replicate, length_toBits]
  omega

/-- No code is empty. -/
theorem one_le_length_unsignedCodeBits (n : Nat) : 1 ≤ (unsignedCodeBits n).length := by
  rw [length_unsignedCodeBits]
  omega

/-- The number under which an integer is coded. -/
def signedCode (n : Int) : Nat :=
  if 0 < n then 2 * n.natAbs - 1 else 2 * n.natAbs

/-- The bits of a layout, one field behind the other. -/
def Field.bits (fields : List Field) : List Bool :=
  fields.flatMap fun f => toBits f.width f.value

@[simp] theorem Field.bits_nil : Field.bits [] = [] := rfl

@[simp] theorem Field.bits_cons (f : Field) (fields : List Field) :
    Field.bits (f :: fields) = toBits f.width f.value ++ Field.bits fields := rfl

@[simp] theorem Field.bits_append (a b : List Field) :
    Field.bits (a ++ b) = Field.bits a ++ Field.bits b := by
  simp [Field.bits]

@[simp] theorem Field.length_bits (fields : List Field) :
    (Field.bits fields).length = Field.totalWidth fields := by
  induction fields with
  | nil => rfl
  | cons f fields ih => rw [bits_cons, List.length_append, length_toBits, ih]; rfl

/-- The number of bits between position `n` and the next byte boundary. -/
def padding (n : Nat) : Nat :=
  (8 - n % 8) % 8

theorem padding_lt (n : Nat) : padding n < 8 := Nat.mod_lt _ (by decide)

theorem dvd_add_padding (n : Nat) : 8 ∣ n + padding n := by
  unfold padding; omega

namespace Writer

variable (w : Writer)

/-! ### Positions -/

theorem length_written : w.written.length = w.bitsWritten := by
  simp [written, bitsWritten]

theorem length_written_mod : w.written.length % 8 = w.filled := by
  have := w.filled_lt
  rw [length_written, bitsWritten]
  omega

@[simp] theorem written_empty : empty.written = [] := rfl

@[simp] theorem written_withCapacity (capacity : Nat) : (withCapacity capacity).written = [] := rfl

@[simp] theorem written_reusing (buffer : Array UInt8) : (reusing buffer).written = [] := by
  have hnil : (buffer.shrink 0).toList = [] := by simp
  rw [written, reusing, hnil]
  rfl

/-! ### Bits of the incomplete byte -/

/-- Bits that are shifted in below others are spelled behind them. -/
theorem toBits_shiftIn (tail filled : Nat) {take value : Nat} {mask : UInt64}
    (hmask : mask.toNat = (1 <<< take) - 1) :
    toBits (filled + take) (tail <<< take ||| value &&& mask.toNat) =
      toBits filled tail ++ toBits take value := by
  have hchunk : value &&& mask.toNat = value % 2 ^ take := by
    rw [hmask, Nat.one_shiftLeft, Nat.and_two_pow_sub_one_eq_mod]
  have hlt : value % 2 ^ take < 2 ^ take := Nat.mod_lt _ (Nat.two_pow_pos _)
  have hsum : tail <<< take ||| value % 2 ^ take = tail * 2 ^ take + value % 2 ^ take := by
    rw [← Nat.shiftLeft_add_eq_or_of_lt hlt, Nat.shiftLeft_eq]
  have hhigh : (tail * 2 ^ take + value % 2 ^ take) / 2 ^ take = tail := by
    rw [Nat.mul_comm, Nat.mul_add_div (Nat.two_pow_pos _), Nat.div_eq_of_lt hlt, Nat.add_zero]
  have hlow : toBits take (tail * 2 ^ take + value % 2 ^ take) = toBits take value := by
    refine toBits_congr ?_
    rw [Nat.mul_add_mod_self_right, Nat.mod_mod]
  rw [hchunk, hsum, toBits_add, hhigh, hlow]

/-- **The bits for the incomplete byte are appended**, whether or not they complete it. -/
theorem exists_fill {take : Nat} (hroom : w.filled + take ≤ 8) (value : Nat) :
    ∃ w', w.fill take value = .ok w' ∧ w'.written = w.written ++ toBits take value := by
  have h64 : take ≤ 64 := by omega
  have hsum : Checked.add 32 w.filled take = .ok (w.filled + take) :=
    Checked.add_of_lt (by omega)
  obtain ⟨mask, hmask⟩ := exists_lowerMask h64
  have hvalue := toNat_lowerMask hmask
  have hspell : toBits (w.filled + take) (w.tail <<< take ||| value &&& mask.toNat) =
      toBits w.filled w.tail ++ toBits take value := toBits_shiftIn w.tail w.filled hvalue
  have hbyte : w.tail <<< take ||| value &&& mask.toNat < 1 <<< (w.filled + take) :=
    shiftIn_lt w.tail_lt hvalue
  unfold fill
  split
  · case h_1 hfail =>
    rw [hmask] at hfail
    cases hfail
  · case h_2 hfail _ =>
    rw [hsum] at hfail
    cases hfail
  · case h_3 mask' filled hmask' hfilled =>
    obtain rfl := Except.ok.inj (hmask.symm.trans hmask')
    obtain rfl := Except.ok.inj (hsum.symm.trans hfilled)
    by_cases h : w.filled + take < 8
    · simp only [h, ↓reduceDIte]
      refine ⟨_, rfl, ?_⟩
      simp only [written]
      rw [hspell, List.append_assoc]
    · have hfull : w.filled + take = 8 := by omega
      rw [hfull] at hspell hbyte
      simp only [h, ↓reduceDIte]
      refine ⟨_, rfl, ?_⟩
      simp only [written, Array.toList_push, ofBytes_append, ofBytes_cons, ofBytes_nil,
        toBits_zero, List.append_nil]
      rw [UInt8.toNat_ofNat_of_lt' hbyte, hspell, List.append_assoc]

/-- The incomplete byte takes its share of a field. -/
theorem share_eq {width : Nat} (h64 : width ≤ 64) :
    w.share width = .ok (min (8 - w.filled) width, width - min (8 - w.filled) width) := by
  have hfilled := w.filled_lt
  unfold share
  rw [Checked.bind_ok (Checked.sub_of_le hfilled.le),
    Checked.bind_ok (Checked.shiftAmount_of_lt (by omega)),
    Checked.bind_ok (Checked.sub_of_le (Nat.min_le_right ..)),
    Checked.bind_ok (Checked.shiftAmount_of_lt (by omega))]
  rfl

/-- **The bits of a field are appended**, over as many bytes as they take. -/
theorem exists_putBits {width : Nat} (h64 : width ≤ 64) (value : Nat) :
    ∃ w', w.putBits width value = .ok w' ∧ w'.written = w.written ++ toBits width value := by
  induction width using Nat.strongRecOn generalizing w with
  | ind width ih =>
    rw [putBits]
    by_cases hpos : width = 0
    · rw [dif_pos hpos]
      subst hpos
      exact ⟨w, rfl, (List.append_nil _).symm⟩
    rw [dif_neg hpos]
    have hshare := share_eq w h64
    split
    · case h_1 hfail =>
      rw [hshare] at hfail
      cases hfail
    · case h_2 take rest hok =>
      obtain ⟨htake, hrest⟩ := share_eq_ok hok
      have hfilled := w.filled_lt
      have hroom : w.filled + take ≤ 8 := by omega
      have hle : take ≤ width := by omega
      obtain ⟨w₁, hfill, hwritten₁⟩ := exists_fill w hroom (value >>> rest)
      obtain ⟨w', hput, hwritten⟩ := ih rest (rest_lt hpos hok) w₁ (by omega)
      have hsplit : toBits width value = toBits take (value >>> rest) ++ toBits rest value := by
        conv_lhs => rw [← Nat.add_sub_cancel' hle, ← hrest]
        rw [toBits_add, Nat.shiftRight_eq_div_pow]
      refine ⟨w', ?_, ?_⟩
      · rw [Checked.bind_ok hfill, hput]
      · rw [hwritten, hwritten₁, List.append_assoc, ← hsplit]

end Writer

/-! ### Writes that append -/

/-- A write that succeeds wherever a writer stands, and appends given bits. -/
def Appends (write : Writer → Except Fault Writer) (bits : List Bool) : Prop :=
  ∀ w, ∃ w', write w = .ok w' ∧ w'.written = w.written ++ bits

namespace Appends

variable {f g : Writer → Except Fault Writer} {a b : List Bool} {w w' : Writer}

/-- What such a write has appended. -/
theorem written (hf : Appends f a) (hok : f w = .ok w') : w'.written = w.written ++ a := by
  obtain ⟨w'', hok', hwritten⟩ := hf w
  obtain rfl := Except.ok.inj (hok.symm.trans hok')
  exact hwritten

/-- Such a write succeeds wherever a writer stands. -/
theorem exists_ok (hf : Appends f a) (w : Writer) : ∃ w', f w = .ok w' := by
  obtain ⟨w', hok, -⟩ := hf w
  exact ⟨w', hok⟩

theorem congr (hf : Appends f a) (hsame : ∀ w, g w = f w) : Appends g a :=
  (funext hsame : g = f) ▸ hf

theorem pure : Appends (fun w => Pure.pure w) [] :=
  fun w => ⟨w, rfl, (List.append_nil _).symm⟩

/-- Writes that follow one another append the bits of both. -/
theorem bind (hf : Appends f a) (hg : Appends g b) : Appends (fun w => f w >>= g) (a ++ b) := by
  intro w
  obtain ⟨w₁, hfirst, hwritten₁⟩ := hf w
  obtain ⟨w₂, hsecond, hwritten₂⟩ := hg w₁
  refine ⟨w₂, ?_, by rw [hwritten₂, hwritten₁, List.append_assoc]⟩
  dsimp only
  rw [Checked.bind_ok hfirst, hsecond]

/-- The items of a list are appended one behind the other. -/
theorem foldlM {α : Type} {put : Writer → α → Except Fault Writer} {bits : α → List Bool}
    {items : List α} (hitems : ∀ x ∈ items, Appends (fun w => put w x) (bits x)) :
    Appends (fun w => items.foldlM put w) (items.flatMap bits) := by
  induction items with
  | nil => exact pure
  | cons x items ih =>
    obtain ⟨hfirst, hrest⟩ := List.forall_mem_cons.1 hitems
    simp only [List.foldlM_cons, List.flatMap_cons]
    exact hfirst.bind (ih hrest)

end Appends

/-- **A field is appended.** -/
theorem appends_put {width : Nat} (h64 : width ≤ 64) (value : Nat) :
    Appends (fun w => w.put width value) (toBits width value) := by
  intro w
  obtain ⟨w', hput, hwritten⟩ := w.exists_putBits h64 value
  exact ⟨w', (Checked.bind_ok (Checked.atMost_of_le h64)).trans hput, hwritten⟩

/-- **A bit is appended**, whether or not it completes a byte. -/
theorem appends_putFlag (b : Bool) : Appends (fun w => w.putFlag b) [b] := by
  have hbit : toBits 1 b.toNat = [b] := by cases b <;> rfl
  rw [← hbit]
  exact appends_put (by decide) b.toNat

/-- A layout is appended if each of its fields fits. -/
theorem appends_putFields {fields : List Field} (hfit : ∀ f ∈ fields, f.width ≤ 64) :
    Appends (fun w => w.putFields fields) (Field.bits fields) :=
  Appends.foldlM fun f hf => appends_put (hfit f hf) f.value

/-- Bytes that are written one by one are appended. -/
theorem appends_putEach (bytes : List UInt8) :
    Appends (fun w => bytes.foldlM (fun w b => w.put 8 b.toNat) w) (ofBytes bytes) :=
  Appends.foldlM fun b _ => appends_put (by decide) b.toNat

/-- **A byte string is appended**, whether it is copied or written byte by byte. -/
theorem appends_putBytes (bytes : List UInt8) :
    Appends (fun w => w.putBytes bytes) (ofBytes bytes) := by
  intro w
  change ∃ w', w.putBytes bytes = .ok w' ∧ _
  unfold Writer.putBytes
  by_cases h : w.isAligned = true
  · have hfilled : w.filled = 0 := by simpa [Writer.isAligned] using h
    rw [if_pos h]
    exact ⟨_, rfl, by simp [Writer.written, hfilled]⟩
  · rw [if_neg h]
    exact appends_putEach bytes w

/-! ### Codes -/

/-- A number is coded if its successor fits in a word. -/
theorem appends_putUnsignedCode {n : Nat} (hn : n + 1 < 2 ^ 64) :
    Appends (fun w => w.putUnsignedCode n) (unsignedCodeBits n) := by
  have hlog : (n + 1).log2 < 64 := (Nat.log2_lt (Nat.succ_ne_zero n)).2 hn
  have hzeros : Appends (fun w => w.put (n + 1).log2 0) (List.replicate (n + 1).log2 false) := by
    rw [← toBits_zero_right]
    exact appends_put (by omega) 0
  have hcode := appends_put (show (n + 1).log2 + 1 ≤ 64 by omega) (n + 1)
  refine (hzeros.bind hcode).congr fun w => ?_
  unfold Writer.putUnsignedCode
  rw [Checked.bind_ok (Checked.add_of_lt hn)]
  dsimp only
  rw [Checked.bind_ok (Checked.sub_of_le (Nat.le_add_left ..)), Nat.add_sub_cancel]

/-- The number under which an integer is coded fits in a word if its double does. -/
theorem codeOfSigned_eq {n : Int} (hn : 2 * n.natAbs < 2 ^ 64) :
    Writer.codeOfSigned n = .ok (signedCode n) := by
  unfold Writer.codeOfSigned signedCode
  rw [Checked.bind_ok (Checked.mul_of_lt hn)]
  split
  · exact Checked.sub_of_le (by omega)
  · rfl

/-- An integer is coded if the successor of its number fits in a word. -/
theorem appends_putSignedCode {n : Int} (hn : 2 * n.natAbs + 1 < 2 ^ 64) :
    Appends (fun w => w.putSignedCode n) (unsignedCodeBits (signedCode n)) := by
  have hcode : signedCode n + 1 < 2 ^ 64 := by
    unfold signedCode
    split <;> omega
  exact (appends_putUnsignedCode hcode).congr fun w => Checked.bind_ok (codeOfSigned_eq (by omega))

namespace Writer

variable {w w' : Writer}

/-- Layouts may be written one behind the other. -/
theorem putFields_append (w : Writer) (a b : List Field) :
    w.putFields (a ++ b) = w.putFields a >>= fun w => w.putFields b :=
  List.foldlM_append

/-! ### Writes that succeed -/

theorem exists_put {width : Nat} (h64 : width ≤ 64) (value : Nat) (w : Writer) :
    ∃ w', w.put width value = .ok w' :=
  (appends_put h64 value).exists_ok w

theorem exists_putFlag (b : Bool) (w : Writer) : ∃ w', w.putFlag b = .ok w' :=
  (appends_putFlag b).exists_ok w

theorem exists_putFields {fields : List Field} (hfit : ∀ f ∈ fields, f.width ≤ 64) (w : Writer) :
    ∃ w', w.putFields fields = .ok w' :=
  (appends_putFields hfit).exists_ok w

theorem exists_putUnsignedCode {n : Nat} (hn : n + 1 < 2 ^ 64) (w : Writer) :
    ∃ w', w.putUnsignedCode n = .ok w' :=
  (appends_putUnsignedCode hn).exists_ok w

theorem exists_putSignedCode {n : Int} (hn : 2 * n.natAbs + 1 < 2 ^ 64) (w : Writer) :
    ∃ w', w.putSignedCode n = .ok w' :=
  (appends_putSignedCode hn).exists_ok w

/-! ### What a success tells -/

/-- What was written fitted in 64 bits. -/
theorem written_of_put {width value : Nat} (hput : w.put width value = .ok w') :
    width ≤ 64 ∧ w'.written = w.written ++ toBits width value := by
  obtain ⟨width', hwidth, -⟩ := Checked.ok_of_bind hput
  obtain ⟨h64, -⟩ := Checked.atMost_eq_ok hwidth
  exact ⟨h64, (appends_put h64 value).written hput⟩

theorem written_of_putFields {fields : List Field} (hput : w.putFields fields = .ok w') :
    w'.written = w.written ++ Field.bits fields := by
  induction fields generalizing w with
  | nil =>
    obtain rfl := Except.ok.inj hput
    exact (List.append_nil _).symm
  | cons f fields ih =>
    obtain ⟨w₁, hfirst, hrest⟩ := Checked.ok_of_bind hput
    rw [ih hrest, (written_of_put hfirst).2, Field.bits_cons, List.append_assoc]

/-- The bits that a layout has taken. -/
theorem bitsWritten_of_putFields {fields : List Field} (hput : w.putFields fields = .ok w') :
    w'.bitsWritten - w.bitsWritten = Field.totalWidth fields := by
  rw [← length_written, ← length_written, written_of_putFields hput, List.length_append,
    Field.length_bits, Nat.add_sub_cancel_left]

/-- The successor of a number that was coded fitted in a word. -/
theorem lt_of_putUnsignedCode {n : Nat} (hput : w.putUnsignedCode n = .ok w') :
    n + 1 < 2 ^ 64 := by
  obtain ⟨code, hcode, -⟩ := Checked.ok_of_bind hput
  obtain ⟨hlt, -⟩ := Checked.within_eq_ok hcode
  rwa [Nat.one_shiftLeft] at hlt

/-- So the number is coded anywhere. -/
theorem appends_of_putUnsignedCode {n : Nat} (hput : w.putUnsignedCode n = .ok w') :
    Appends (fun w => w.putUnsignedCode n) (unsignedCodeBits n) :=
  appends_putUnsignedCode (lt_of_putUnsignedCode hput)

theorem written_of_putUnsignedCode {n : Nat} (hput : w.putUnsignedCode n = .ok w') :
    w'.written = w.written ++ unsignedCodeBits n :=
  (appends_of_putUnsignedCode hput).written hput

/-- The double of an integer that was coded fitted in a word, so the integer is coded anywhere. -/
theorem appends_of_putSignedCode {n : Int} (hput : w.putSignedCode n = .ok w') :
    Appends (fun w => w.putSignedCode n) (unsignedCodeBits (signedCode n)) := by
  obtain ⟨code, hcode, hput⟩ := Checked.ok_of_bind hput
  obtain ⟨double, hdouble, -⟩ := Checked.ok_of_bind hcode
  obtain ⟨hlt, -⟩ := Checked.within_eq_ok hdouble
  rw [Nat.one_shiftLeft] at hlt
  obtain rfl := Except.ok.inj (hcode.symm.trans (codeOfSigned_eq hlt))
  exact (appends_of_putUnsignedCode hput).congr fun w => Checked.bind_ok hcode

theorem written_of_putSignedCode {n : Int} (hput : w.putSignedCode n = .ok w') :
    w'.written = w.written ++ unsignedCodeBits (signedCode n) :=
  (appends_of_putSignedCode hput).written hput

/-! ### Boundaries -/

theorem padding_length_written (w : Writer) : padding w.written.length = (8 - w.filled) % 8 := by
  rw [padding, length_written_mod]

/-- **A boundary is reached** with as many zeros as it is away. -/
theorem exists_realign (w : Writer) : ∃ w', w.realign = .ok w' ∧
    w'.written = w.written ++ List.replicate (padding w.written.length) false := by
  have hlt := w.filled_lt
  rw [padding_length_written]
  unfold realign
  by_cases h : w.filled = 0
  · rw [if_pos h, h]
    exact ⟨w, rfl, (List.append_nil _).symm⟩
  · rw [if_neg h, Checked.bind_ok (Checked.sub_of_le hlt.le), Nat.mod_eq_of_lt (by omega),
      ← toBits_zero_right]
    exact appends_put (by omega) 0 w

theorem written_of_realign (hrealign : w.realign = .ok w') :
    w'.written = w.written ++ List.replicate (padding w.written.length) false := by
  obtain ⟨w'', hok, hwritten⟩ := w.exists_realign
  obtain rfl := Except.ok.inj (hrealign.symm.trans hok)
  exact hwritten

/-- **The finished bytes hold what was written**, filled up with zeros. -/
theorem exists_finish (w : Writer) : ∃ bytes, w.finish = .ok bytes ∧
    ofBytes bytes = w.written ++ List.replicate (padding w.written.length) false := by
  obtain ⟨w', hrealign, hwritten⟩ := w.exists_realign
  have hfilled : w'.filled = 0 := by
    rw [← length_written_mod, hwritten, List.length_append, List.length_replicate]
    exact Nat.mod_eq_zero_of_dvd (dvd_add_padding _)
  refine ⟨w'.bytes.toList, Checked.bind_ok hrealign, ?_⟩
  rw [← hwritten, written, hfilled, toBits_zero, List.append_nil]

theorem ofBytes_of_finish {bytes : List UInt8} (hfinish : w.finish = .ok bytes) :
    ofBytes bytes = w.written ++ List.replicate (padding w.written.length) false := by
  obtain ⟨bytes', hok, hbits⟩ := w.exists_finish
  obtain rfl := Except.ok.inj (hfinish.symm.trans hok)
  exact hbits

end Writer

/-- Bits that fill whole bytes are those of a byte string. -/
theorem exists_ofBytes_eq {bits : List Bool} {n : Nat} (hlength : bits.length = 8 * n) :
    ∃ bytes : List UInt8, bytes.length = n ∧ ofBytes bytes = bits := by
  induction n generalizing bits with
  | zero => exact ⟨[], rfl, (List.eq_nil_of_length_eq_zero hlength).symm⟩
  | succ n ih =>
    have hfirst : (bits.take 8).length = 8 := by rw [List.length_take]; omega
    have hrest : (bits.drop 8).length = 8 * n := by rw [List.length_drop]; omega
    obtain ⟨bytes, hcount, hbytes⟩ := ih hrest
    have hlt := ofBits_lt (bits.take 8)
    have hbyte : toBits 8 (UInt8.ofNat (ofBits (bits.take 8))).toNat = bits.take 8 := by
      rw [hfirst] at hlt
      rw [UInt8.toNat_ofNat_of_lt' hlt]
      have hspelled := toBits_ofBits (bits.take 8)
      rwa [hfirst] at hspelled
    refine ⟨UInt8.ofNat (ofBits (bits.take 8)) :: bytes, by rw [List.length_cons, hcount], ?_⟩
    rw [ofBytes_cons, hbyte, hbytes, List.take_append_drop]

end DolbyVision.Bits
