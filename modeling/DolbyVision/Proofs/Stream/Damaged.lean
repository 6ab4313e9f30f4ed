/-
**Damaged RPUs.**

A decoder that checks the checksum and gives up on minor errors refuses every RPU with a burst of
damage in front of its last byte, wherever the burst lies: in the data, in the checksum or across
the border between them.  The damage cannot make up for itself in the checksum, and the last byte,
which a decoder looks for first, is where it was.

Main results:

* `DolbyVision.Tail.residue_flipped` — what is left of a damaged RPU is what is left of the damage;
* `DolbyVision.Stream.refuses_burst` — **a burst of damage is always found**, and the decoder is
  flushed.
-/

import DolbyVision.Proofs.Container.Nal
import DolbyVision.Proofs.Container.Tail
import DolbyVision.Proofs.Crc32.Burst
import DolbyVision.Proofs.Stream.Invariant
import DolbyVision.Proofs.Stream.Outcomes

set_option relaxedAutoImplicit false
set_option autoImplicit false

namespace DolbyVision

open Bits

namespace Tail

variable {rpu pattern : List UInt8} {start : Nat}

/-! ### Damage in front of the last byte -/

/-- A byte whose bits are all clear. -/
theorem eq_zero_of_toBits {b : UInt8} (h : toBits 8 b.toNat = List.replicate 8 false) : b = 0 := by
  rw [← ofNat_ofBits_toBits b, h, ofBits_replicate_false]
  rfl

/-- A burst that ends in front of the last byte leaves that byte alone. -/
theorem exists_front (hburst : IsBurst start (ofBytes pattern))
    (hroom : start + 32 ≤ 8 * (pattern.length - 1)) :
    ∃ front, pattern = front ++ [0] ∧ IsBurst start (ofBytes front) := by
  have hne : pattern ≠ [] := by
    rintro rfl
    simp at hroom
  obtain ⟨front, last, rfl⟩ : ∃ front last, pattern = front ++ [last] :=
    ⟨_, _, (List.dropLast_append_getLast hne).symm⟩
  have hsplit : ofBytes (front ++ [last]) = ofBytes front ++ toBits 8 last.toNat := by
    rw [ofBytes_append, ofBytes_cons, ofBytes_nil, List.append_nil]
  rw [List.length_append, List.length_singleton, Nat.add_sub_cancel, ← length_ofBytes] at hroom
  rw [hsplit] at hburst
  have hclear : toBits 8 last.toNat = List.replicate 8 false := by
    have hzeros (i : Nat) : (toBits 8 last.toNat)[i]? ≠ some true := by
      intro hi
      have hwindow := hburst.window ((ofBytes front).length + i) (by
        rw [List.getElem?_append_right (Nat.le_add_right ..), Nat.add_sub_cancel_left, hi])
      omega
    have hall := eq_replicate_false hzeros
    rwa [length_toBits] at hall
  refine ⟨front, by rw [eq_zero_of_toBits hclear], ?_, fun i hi => ?_⟩
  · have hset := hburst.nonempty
    rw [hclear] at hset
    simpa [List.mem_replicate] using hset
  · have hlt := (List.getElem?_eq_some_iff.1 hi).1
    exact hburst.window i (by rw [List.getElem?_append_left hlt, hi])

/-- An RPU with damage in front of its last byte. -/
theorem flipped_attach (body : List UInt8) {front : List UInt8}
    (h : front.length = body.length + 4) :
    flipped (attach body) (front ++ [0]) =
      flipped (body ++ Crc32.bigEndian (Crc32.checksum body)) front ++ [terminator] := by
  rw [flipped, attach, List.zipWith_append (by simp [h])]
  rfl

/-- What is left of a damaged RPU is what is left of the damage. -/
theorem residue_flipped (body : List UInt8) {front : List UInt8}
    (h : front.length = body.length + 4) :
    residue (flipped (attach body) (front ++ [0])) = Crc32.divide 0 (ofBytes front) := by
  have hwhole : Crc32.update Crc32.initial (body ++ Crc32.bigEndian (Crc32.checksum body)) = 0 := by
    have hattach := residue_attach body
    rwa [residue, attach, List.dropLast_concat] at hattach
  rw [residue, flipped_attach body h, List.dropLast_concat,
    Crc32.update_flipped _ (by simp [h]), hwhole, UInt32.zero_xor]

end Tail

namespace Stream

variable {s : Stream} {strictness : Strictness}

/-- **A burst of damage is always found**: a decoder that checks the checksum and gives up on minor
errors refuses the RPU, and nothing of earlier ones is left. -/
theorem refuses_burst (hprofile : s.configuration.profile ≠ t35Profile)
    (hchecks : strictness.contains .checksum = true)
    (hexplodes : strictness.contains .explode = true) (body : List UInt8)
    {pattern : List UInt8} (hlength : pattern.length = (Tail.attach body).length) {start : Nat}
    (hburst : IsBurst start (ofBytes pattern)) (hroom : start + 32 ≤ 8 * (pattern.length - 1)) :
    (s.decode (Nal.marker :: flipped (Tail.attach body) pattern) strictness).result =
        .error (.malformed .checksumMismatch) ∧
      (s.decode (Nal.marker :: flipped (Tail.attach body) pattern) strictness).state = s.flush := by
  obtain ⟨front, rfl, hfront⟩ := Tail.exists_front hburst hroom
  have hfit : front.length = body.length + 4 := by
    simpa [Tail.attach, List.length_append] using hlength
  have hresidue : Tail.residue (flipped (Tail.attach body) (front ++ [0])) ≠ 0 := by
    rw [Tail.residue_flipped body hfit]
    exact Crc32.divide_burst_ne_zero hfront
  have hdamaged := Tail.flipped_attach body hfit
  have hwhole : Tail.size ≤ (flipped (Tail.attach body) (front ++ [0])).length := by
    rw [length_flipped hlength.symm]
    simp [Tail.attach, Tail.size]
  obtain ⟨notes, hverify⟩ := Tail.verify_of_residue hchecks hexplodes hwhole
    (by rw [hdamaged, List.getLast?_concat]) hresidue
  have hpayload : s.payload (Nal.marker :: flipped (Tail.attach body) (front ++ [0])) =
      .ok (flipped (Tail.attach body) (front ++ [0])) := by
    rw [payload, if_neg hprofile, Nal.rpu, if_pos rfl, hdamaged, Nal.trimZeros_eq,
      Nal.trimmed_eq_self (by decide)]
  exact decode_of_refused (by rw [opened, hpayload]; dsimp only; rw [hverify])

/-- The data of an RPU, up to its tail. -/
def shortBody : List UInt8 := [8, 0, 8, 64, 96]

/-- Damage of the last two bytes of that data and of the first three of its checksum. -/
def straddling : List UInt8 := [0, 0, 0, 0x20, 0x81, 0, 0, 0x40, 0, 0]

/-- A decoder finds damage across the border between the data and the checksum, and forgets what it
has decoded before. -/
theorem refuses_burst_straddling :
    IsBurst 26 (ofBytes straddling) ∧
      LabelledStream.grading.stream.metadata = some LabelledStream.graded ∧
      (LabelledStream.grading.stream.decode
          (Nal.marker :: flipped (Tail.attach shortBody) straddling)
          (Strictness.checksum.union .explode)).result = .error (.malformed .checksumMismatch) ∧
      (LabelledStream.grading.stream.decode
          (Nal.marker :: flipped (Tail.attach shortBody) straddling)
          (Strictness.checksum.union .explode)).state.metadata = none := by
  have hburst : IsBurst 26 (ofBytes straddling) := by decide
  have hchecks : (Strictness.checksum.union .explode).contains .checksum = true := by decide
  obtain ⟨hresult, hstate⟩ := refuses_burst (s := LabelledStream.grading.stream)
    (by decide +kernel) hchecks (by decide) shortBody
    (by decide : straddling.length = (Tail.attach shortBody).length) hburst (by decide)
  refine ⟨hburst, by decide +kernel, hresult, ?_⟩
  rw [hstate]
  rfl

end Stream

end DolbyVision
