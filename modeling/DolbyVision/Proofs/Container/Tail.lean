/-
**The tail of an RPU.**

An RPU passes with the tail that was attached to it.  Whether a tail is the right one also shows in
the register: nothing is left of an RPU after its own checksum, and something after any other.

Main definitions:

* `DolbyVision.Tail.residue` — the register after everything but the last byte.

Main results:

* `DolbyVision.Tail.split_attach`, `DolbyVision.Tail.eq_of_split` — an RPU is split into what its
  tail was attached to and the stated checksum, and put together of these again;
* `DolbyVision.Tail.verify_attach` — **an RPU with its tail passes at any strictness**;
* `DolbyVision.Tail.exists_of_verify`, `DolbyVision.Tail.verify_unchecked` — what passes has a tail,
  whose checksum matters only if it is computed;
* `DolbyVision.Tail.residue_eq_zero_iff` — **a stated checksum is right exactly if nothing is
  left**;
* `DolbyVision.Tail.verify_of_residue` — an RPU of which something is left is refused.
-/

import DolbyVision.Container.Tail
import DolbyVision.Proofs.Crc32.Division
import Mathlib.Tactic.Ring

set_option relaxedAutoImplicit false
set_option autoImplicit false

namespace DolbyVision.Tail

/-! ### The stated checksum -/

/-- A byte that is appended to a word with room for it. -/
theorem toNat_append (w : UInt32) (b : UInt8) (hroom : w.toNat < 2 ^ 24) :
    ((w <<< 8) ||| b.toUInt32).toNat = w.toNat * 256 + b.toNat := by
  have hb : b.toNat < 2 ^ 8 := b.toNat_lt
  have hshift : (w <<< 8).toNat = w.toNat <<< 8 := by
    have height : (8 : UInt32).toNat % 32 = 8 := rfl
    rw [UInt32.toNat_shiftLeft, height, Nat.mod_eq_of_lt]
    rw [Nat.shiftLeft_eq]
    omega
  rw [UInt32.toNat_or, hshift, UInt8.toNat_toUInt32, ← Nat.shiftLeft_add_eq_or_of_lt hb,
    Nat.shiftLeft_eq]

/-- The word that four bytes spell. -/
theorem toNat_word (b₀ b₁ b₂ b₃ : UInt8) :
    (word [b₀, b₁, b₂, b₃]).toNat =
      ((b₀.toNat * 256 + b₁.toNat) * 256 + b₂.toNat) * 256 + b₃.toNat := by
  have h₀ := b₀.toNat_lt
  have h₁ := b₁.toNat_lt
  have h₂ := b₂.toNat_lt
  simp only [word, List.foldl_cons, List.foldl_nil]
  have hw₀ := toNat_append 0 b₀ (by decide)
  rw [UInt32.toNat_zero] at hw₀
  have hw₁ := toNat_append _ b₁ (by rw [hw₀]; omega)
  have hw₂ := toNat_append _ b₂ (by rw [hw₁, hw₀]; omega)
  rw [toNat_append _ b₃ (by rw [hw₂, hw₁, hw₀]; omega), hw₂, hw₁, hw₀]
  omega

/-- The bytes of a word spell the word. -/
theorem word_bigEndian (v : UInt32) : word (Crc32.bigEndian v) = v := by
  have hv : v.toNat < 2 ^ 32 := v.toNat_lt
  apply UInt32.toNat_inj.1
  rw [Crc32.bigEndian, toNat_word, Crc32.toNat_byte v 24 24 rfl, Crc32.toNat_byte v 16 16 rfl,
    Crc32.toNat_byte v 8 8 rfl, UInt32.toNat_toUInt8]
  omega

/-- Four bytes are those of the word that they spell. -/
theorem bigEndian_word (b₀ b₁ b₂ b₃ : UInt8) :
    Crc32.bigEndian (word [b₀, b₁, b₂, b₃]) = [b₀, b₁, b₂, b₃] := by
  have h₀ := b₀.toNat_lt
  have h₁ := b₁.toNat_lt
  have h₂ := b₂.toNat_lt
  have h₃ := b₃.toNat_lt
  simp only [Crc32.bigEndian, List.cons.injEq, ← UInt8.toNat_inj, Crc32.toNat_byte _ 24 24 rfl,
    Crc32.toNat_byte _ 16 16 rfl, Crc32.toNat_byte _ 8 8 rfl, UInt32.toNat_toUInt8, toNat_word,
    and_true]
  refine ⟨?_, ?_, ?_, ?_⟩ <;> omega

/-! ### Parts -/

@[simp] theorem length_bigEndian (v : UInt32) : (Crc32.bigEndian v).length = 4 := rfl

theorem length_attach (body : List UInt8) : (attach body).length = body.length + size := by
  simp [attach, size]

/-- A byte string without a tail is not split. -/
theorem split_of_short {rpu : List UInt8} (hshort : rpu.length < size) :
    split rpu = .error (.malformed .missingTerminator) := by
  unfold split
  rw [if_pos hshort]
  rfl

/-- What is put together of a body and five bytes is split if the last of them is right. -/
theorem split_append_cons (body : List UInt8) (b₀ b₁ b₂ b₃ last : UInt8) :
    split (body ++ [b₀, b₁, b₂, b₃, last]) =
      if last ≠ terminator then .error (.malformed .missingTerminator)
      else .ok (body, word [b₀, b₁, b₂, b₃]) := by
  have hlength : (body ++ [b₀, b₁, b₂, b₃, last]).length = body.length + 5 := by
    rw [List.length_append]
    rfl
  have hlast : Checked.item (body ++ [b₀, b₁, b₂, b₃, last]) (body.length + 5 - 1) = .ok last := by
    refine Checked.item_of_getElem? ?_
    rw [List.getElem?_append_right (by omega)]
    have hindex : body.length + 5 - 1 - body.length = 4 := by omega
    rw [hindex]
    rfl
  have hborder : Checked.splitAt (body ++ [b₀, b₁, b₂, b₃, last]) (body.length + 5 - 5) =
      .ok (body, [b₀, b₁, b₂, b₃, last]) := by
    rw [Checked.splitAt_of_le (by omega), Nat.add_sub_cancel, List.take_left, List.drop_left]
  unfold split size
  rw [hlength, if_neg (by omega), Checked.sub_of_le (by omega), Checked.sub_of_le (by omega)]
  change (Checked.item _ (body.length + 5 - 1) >>= fun b => _) = _
  rw [hlast]
  change (if last ≠ terminator then _ else _) = _
  by_cases hright : last ≠ terminator
  · rw [if_pos hright, if_pos hright]
    rfl
  · rw [if_neg hright, if_neg hright]
    change (Checked.splitAt _ (body.length + 5 - 5) >>= fun parts => _) = _
    rw [hborder]
    rfl

/-- A byte string that is not too short is a body and five bytes. -/
theorem exists_append_cons {rpu : List UInt8} (hlength : size ≤ rpu.length) :
    ∃ body b₀ b₁ b₂ b₃ last, rpu = body ++ [b₀, b₁, b₂, b₃, last] := by
  have hfive : (rpu.drop (rpu.length - size)).length = 5 := by
    rw [List.length_drop, Nat.sub_sub_self hlength, size]
  match hbehind : rpu.drop (rpu.length - size), hfive with
  | [b₀, b₁, b₂, b₃, last], _ =>
    refine ⟨rpu.take (rpu.length - size), b₀, b₁, b₂, b₃, last, ?_⟩
    rw [← hbehind, List.take_append_drop]

/-- What is put together of a body, four bytes and the last byte is split into its parts. -/
theorem split_append (body : List UInt8) {stated : List UInt8} (hstated : stated.length = 4) :
    split (body ++ stated ++ [terminator]) = .ok (body, word stated) := by
  match stated, hstated with
  | [b₀, b₁, b₂, b₃], _ =>
    rw [List.append_assoc]
    exact split_append_cons body b₀ b₁ b₂ b₃ terminator

/-- **An RPU is split into what its tail was attached to** and the checksum of that. -/
theorem split_attach (body : List UInt8) :
    split (attach body) = .ok (body, Crc32.checksum body) := by
  rw [attach, split_append body (length_bigEndian _), word_bigEndian]

/-- What is split was put together of its parts and the last byte. -/
theorem eq_of_split {rpu body : List UInt8} {stated : UInt32}
    (h : split rpu = .ok (body, stated)) :
    rpu = body ++ Crc32.bigEndian stated ++ [terminator] := by
  by_cases hshort : rpu.length < size
  · rw [split_of_short hshort] at h
    cases h
  · obtain ⟨front, b₀, b₁, b₂, b₃, last, rfl⟩ := exists_append_cons (Nat.not_lt.1 hshort)
    rw [split_append_cons] at h
    split at h
    · cases h
    · case isFalse hlast =>
      obtain ⟨rfl, rfl⟩ := Prod.mk.inj (Except.ok.inj h)
      rw [bigEndian_word, List.append_assoc, ← Decidable.not_not.1 hlast]
      rfl

/-- **An RPU with its tail passes at any strictness**, and nothing is reported. -/
theorem verify_attach (body : List UInt8) (strictness : Strictness) :
    verify (attach body) strictness = (.ok (), []) := by
  simp [verify, split_attach]

/-- A decoder that does not compute the checksum accepts a tail with whatever checksum. -/
theorem verify_unchecked {strictness : Strictness} (hchecks : strictness.contains .checksum = false)
    (body : List UInt8) {stated : List UInt8} (hstated : stated.length = 4) :
    verify (body ++ stated ++ [terminator]) strictness = (.ok (), []) := by
  unfold verify
  rw [split_append body hstated]
  simp [hchecks]

/-- What a decoder accepts has a tail. -/
theorem exists_of_verify {strictness : Strictness} {rpu : List UInt8} {notes : List Note}
    (hverify : verify rpu strictness = (.ok (), notes)) :
    ∃ body stated, stated.length = 4 ∧ rpu = body ++ stated ++ [terminator] := by
  unfold verify at hverify
  split at hverify
  · cases hverify
  · case h_2 body stated hsplit =>
    exact ⟨body, Crc32.bigEndian stated, length_bigEndian stated, eq_of_split hsplit⟩

/-! ### What is left of an RPU -/

/-- The register after everything but the last byte of an RPU. -/
def residue (rpu : List UInt8) : UInt32 :=
  Crc32.update Crc32.initial rpu.dropLast

/-- **A stated checksum is right exactly if nothing is left** of the RPU. -/
theorem residue_eq_zero_iff {rpu body : List UInt8} {stated : UInt32}
    (h : split rpu = .ok (body, stated)) : residue rpu = 0 ↔ Crc32.checksum body = stated := by
  rw [residue, eq_of_split h, List.dropLast_concat, Crc32.update_append,
    Crc32.update_bigEndian_eq_zero_iff, Crc32.checksum]

theorem residue_attach (body : List UInt8) : residue (attach body) = 0 :=
  (residue_eq_zero_iff (split_attach body)).2 rfl

/-- **An RPU of which something is left is refused** by a decoder that checks it and gives up on
minor errors. -/
theorem verify_of_residue {rpu : List UInt8} {strictness : Strictness}
    (hchecks : strictness.contains .checksum = true)
    (hexplodes : strictness.contains .explode = true) (hlength : size ≤ rpu.length)
    (hlast : rpu.getLast? = some terminator) (hresidue : residue rpu ≠ 0) :
    ∃ notes, verify rpu strictness = (.error (.malformed .checksumMismatch), notes) := by
  obtain ⟨front, b₀, b₁, b₂, b₃, last, rfl⟩ := exists_append_cons hlength
  obtain rfl : last = terminator := by
    rw [List.getLast?_append] at hlast
    exact Option.some.inj hlast
  have hsplit : split (front ++ [b₀, b₁, b₂, b₃, terminator]) =
      .ok (front, word [b₀, b₁, b₂, b₃]) := split_append_cons front b₀ b₁ b₂ b₃ terminator
  have hwrong : (Crc32.checksum front == word [b₀, b₁, b₂, b₃]) = false := by
    rw [beq_eq_false_iff_ne, ne_eq, ← residue_eq_zero_iff hsplit]
    exact hresidue
  simp [verify, hsplit, hwrong, hchecks, hexplodes]

end DolbyVision.Tail
