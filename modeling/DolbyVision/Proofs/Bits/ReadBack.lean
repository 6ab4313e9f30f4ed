/-
**A reader reads back what a writer has written.**

A writer fills one byte after the other and copies byte strings where it can, a reader takes its
bits from words of eight bytes, and neither knows where the other one starts a new piece.  So
whatever is written, in any order and at any position, is read back by the matching reads.

What is written is a list of `Write`s.  Each of them knows the reads that match it, the answers that
they give, and the number of bits that it takes at a position.  `conveys_matching` says of one write
that it conveys its answers to its reads, and the runs follow by induction on the list.

Main definitions:

* `DolbyVision.Bits.Write` — what can be written, with `put`, `matching`, `answers` and `width`;
* `DolbyVision.Bits.Write.putAll`, `DolbyVision.Bits.Write.widths` — the writes of a list and the
  widths that they take;
* `DolbyVision.Bits.Origin` — the ways in which a writer is made.

Main results:

* `DolbyVision.Bits.Write.exists_put` — a write succeeds, and takes as many bits as it says;
* `DolbyVision.Bits.Write.conveys_matching`, `conveys_all` — **one write, and a list of writes, is
  read back by the matching reads**;
* `DolbyVision.Bits.Write.read_back` — **everything is read back** from the finished bytes.
-/

import DolbyVision.Proofs.Bits.Conveys
import DolbyVision.Proofs.Bits.Cursor

set_option relaxedAutoImplicit false
set_option autoImplicit false

namespace DolbyVision.Bits

/-! ### Writes -/

/-- What can be written. -/
inductive Write where
  /-- One bit. -/
  | flag (b : Bool)
  /-- The lowest bits of a number, up to 32 of them. -/
  | bits32 (width : Nat) (h32 : width ≤ 32) (value : Nat)
  /-- An integer that fits its width in two's complement. -/
  | signed32 (width : Nat) (hpos : 0 < width) (h32 : width ≤ 32) (value : Int)
      (hlo : -(2 ^ (width - 1) : Nat) ≤ value) (hhi : value < (2 ^ (width - 1) : Nat))
  /-- The lowest bits of a number, up to 64 of them. -/
  | bits (width : Nat) (h64 : width ≤ 64) (value : Nat)
  /-- A byte string. -/
  | bytes (data : List UInt8)
  /-- An unsigned Exp-Golomb code. -/
  | unsignedCode (n : Nat) (h : n ≤ maxCode)
  /-- A signed Exp-Golomb code. -/
  | signedCode (n : Int) (h : n.natAbs < 2 ^ 31)
  /-- Zeros up to the next byte boundary. -/
  | realign

namespace Write

/-- Writes. -/
def put (w : Writer) : Write → Except Fault Writer
  | flag b => w.putFlag b
  | bits32 width _ value => w.put width value
  | signed32 width _ _ value _ _ => w.putSigned width value
  | bits width _ value => w.put width value
  | bytes data => w.putBytes data
  | unsignedCode n _ => w.putUnsignedCode n
  | signedCode n _ => w.putSignedCode n
  | realign => w.realign

/-- Writes one thing after the other. -/
def putAll (w : Writer) (writes : List Write) : Except Fault Writer :=
  writes.foldlM put w

/-- The reads that match a write.  A byte string is read byte by byte. -/
def matching : Write → List Request
  | flag _ => [.flag]
  | bits32 width h32 _ => [.bits32 width h32]
  | signed32 width _ h32 _ _ _ => [.signed32 width h32]
  | bits width h64 _ => [.bits width h64]
  | bytes data => data.map fun _ => .bits32 8 (by decide)
  | unsignedCode _ _ => [.unsignedCode]
  | signedCode _ _ => [.signedCode]
  | realign => [.realign]

/-- The answers to the reads that match a write: what was written, as far as its width goes. -/
def answers : Write → List Answer
  | flag b => [.flag b]
  | bits32 width _ value => [.number (value % 2 ^ width)]
  | signed32 _ _ _ value _ _ => [.integer value]
  | bits width _ value => [.number (value % 2 ^ width)]
  | bytes data => data.map fun b => .number b.toNat
  | unsignedCode n _ => [.number n]
  | signedCode n _ => [.integer n]
  | realign => [.moved]

/-- The number of bits that a write takes at a position. -/
def width (position : Nat) : Write → Nat
  | flag _ => 1
  | bits32 width _ _ => width
  | signed32 width _ _ _ _ _ => width
  | bits width _ _ => width
  | bytes data => 8 * data.length
  | unsignedCode n _ => 2 * (n + 1).log2 + 1
  | signedCode n _ => 2 * (Bits.signedCode n + 1).log2 + 1
  | realign => padding position

/-- The numbers of bits that one write after the other takes from a position on. -/
def widths : Nat → List Write → List Nat
  | _, [] => []
  | position, x :: writes => x.width position :: widths (position + x.width position) writes

/-! ### Positions -/

/-- A write succeeds wherever a writer stands, and takes as many bits as it says. -/
theorem exists_put (w : Writer) (x : Write) :
    ∃ w', put w x = .ok w' ∧
      w'.written.length = w.written.length + x.width w.written.length := by
  cases x with
  | flag b =>
    obtain ⟨w', hput, hwritten⟩ := appends_putFlag b w
    exact ⟨w', hput, by rw [hwritten, List.length_append]; rfl⟩
  | bits32 width h32 value =>
    obtain ⟨w', hput, hwritten⟩ := appends_put (by omega : width ≤ 64) value w
    exact ⟨w', hput, by rw [hwritten, List.length_append, length_toBits]; rfl⟩
  | signed32 width hpos h32 value hlo hhi =>
    obtain ⟨w', hput, hwritten⟩ :=
      appends_put (by omega : width ≤ 64) (value % (1 <<< width : Nat)).toNat w
    exact ⟨w', hput, by rw [hwritten, List.length_append, length_toBits]; rfl⟩
  | bits width h64 value =>
    obtain ⟨w', hput, hwritten⟩ := appends_put h64 value w
    exact ⟨w', hput, by rw [hwritten, List.length_append, length_toBits]; rfl⟩
  | bytes data =>
    obtain ⟨w', hput, hwritten⟩ := appends_putBytes data w
    exact ⟨w', hput, by rw [hwritten, List.length_append, length_ofBytes]; rfl⟩
  | unsignedCode n h =>
    unfold maxCode at h
    obtain ⟨w', hput, hwritten⟩ := appends_putUnsignedCode (by omega : n + 1 < 2 ^ 64) w
    exact ⟨w', hput, by rw [hwritten, List.length_append, length_unsignedCodeBits]; rfl⟩
  | signedCode n h =>
    obtain ⟨w', hput, hwritten⟩ :=
      appends_putSignedCode (by omega : 2 * n.natAbs + 1 < 2 ^ 64) w
    exact ⟨w', hput, by rw [hwritten, List.length_append, length_unsignedCodeBits]; rfl⟩
  | realign =>
    obtain ⟨w', hput, hwritten⟩ := w.exists_realign
    exact ⟨w', hput, by rw [hwritten, List.length_append, List.length_replicate]; rfl⟩

/-- **One write after the other succeeds**, and the number of bits is the sum of the widths. -/
theorem exists_putAll (w : Writer) (writes : List Write) :
    ∃ w', putAll w writes = .ok w' ∧
      w'.written.length = w.written.length + (widths w.written.length writes).sum := by
  induction writes generalizing w with
  | nil => exact ⟨w, rfl, rfl⟩
  | cons x writes ih =>
    obtain ⟨w₁, hfirst, hlength₁⟩ := exists_put w x
    obtain ⟨w', hrest, hlength⟩ := ih w₁
    refine ⟨w', ?_, ?_⟩
    · rw [putAll, List.foldlM_cons, Checked.bind_ok hfirst]
      exact hrest
    · rw [hlength, hlength₁, widths, List.sum_cons, Nat.add_assoc]

/-- The widths of the first writes do not depend on the later ones. -/
theorem widths_take (position : Nat) (writes : List Write) (k : Nat) :
    widths position (writes.take k) = (widths position writes).take k := by
  induction writes generalizing position k with
  | nil => simp [widths]
  | cons x writes ih =>
    cases k with
    | zero => rfl
    | succ k => rw [List.take_succ_cons, widths, ih, widths, List.take_succ_cons]

/-! ### Reading back -/

section Conveyed

variable {size : Nat} {w w' : Writer}

theorem conveys_signed32 {width : Nat} (hpos : 0 < width) (h32 : width ≤ 32) {value : Int}
    (hlo : -(2 ^ (width - 1) : Nat) ≤ value) (hhi : value < (2 ^ (width - 1) : Nat))
    (hput : w.putSigned width value = .ok w') :
    Conveys size w w' (Reader.signed32 width) value := by
  refine Conveys.ofReads (Writer.written_of_put hput).2 fun rest => ?_
  have h := reads_signed32 rest hpos h32 (value % (1 <<< width : Nat)).toNat
  have hvalue := bmod_emod_of_fits hlo hhi
  rw [Nat.sub_add_cancel hpos] at hvalue
  rw [Nat.one_shiftLeft] at h ⊢
  rwa [hvalue] at h

/-- One read that matches a write. -/
theorem conveys_single (q : Request) {a : Answer} (h : Conveys size w w' (Reader.answer q) a) :
    Conveys size w w' ([q].mapM Reader.answer) [a] := by
  have hnil : Conveys size w' w' (([] : List Request).mapM Reader.answer) [] := Conveys.pure []
  rw [List.mapM_cons]
  exact h.bind (hnil.andThen (a :: ·))

/-- Bytes that are written one by one are read back one by one. -/
theorem conveys_each {data : List UInt8}
    (hput : data.foldlM (fun w b => w.put 8 b.toNat) w = .ok w') :
    Conveys size w w' ((matching (.bytes data)).mapM Reader.answer) (answers (.bytes data)) := by
  induction data generalizing w with
  | nil =>
    obtain rfl := Except.ok.inj hput
    exact Conveys.pure []
  | cons b data ih =>
    rw [List.foldlM_cons] at hput
    obtain ⟨w₁, hfirst, hrest⟩ := Checked.ok_of_bind hput
    have hbyte : b.toNat % 2 ^ 8 = b.toNat := Nat.mod_eq_of_lt b.toNat_lt
    rw [matching, List.map_cons, List.mapM_cons, ← matching, answers, List.map_cons, ← answers]
    refine Conveys.bind ?_ ((ih hrest).andThen (Answer.number b.toNat :: ·))
    exact ((conveys_bits32 (by decide) hfirst).congr hbyte).andThen Answer.number

/-- A byte string is read back byte by byte, also if it was copied. -/
theorem conveys_bytes {data : List UInt8} (hput : w.putBytes data = .ok w') :
    Conveys size w w' ((matching (.bytes data)).mapM Reader.answer) (answers (.bytes data)) := by
  obtain ⟨v, heach, hwritten⟩ := appends_putEach data w
  refine (conveys_each heach).congrWritten ?_
  rw [(appends_putBytes data).written hput, hwritten]

/-- **What is written is read back by the matching reads**, wherever it is written. -/
theorem conveys_matching (hsize : 8 ∣ size) {x : Write} (hput : put w x = .ok w') :
    Conveys size w w' (x.matching.mapM Reader.answer) x.answers := by
  cases x with
  | flag b => exact conveys_single .flag ((conveys_flag hput).andThen Answer.flag)
  | bits32 width h32 value =>
    exact conveys_single (.bits32 width h32) ((conveys_bits32 h32 hput).andThen Answer.number)
  | signed32 width hpos h32 value hlo hhi =>
    exact conveys_single (.signed32 width h32)
      ((conveys_signed32 hpos h32 hlo hhi hput).andThen Answer.integer)
  | bits width h64 value =>
    exact conveys_single (.bits width h64) ((conveys_bits hput).andThen Answer.number)
  | bytes data => exact conveys_bytes hput
  | unsignedCode n h =>
    exact conveys_single .unsignedCode ((conveys_unsignedCode h hput).andThen Answer.number)
  | signedCode n h =>
    exact conveys_single .signedCode ((conveys_signedCode h hput).andThen Answer.integer)
  | realign =>
    exact conveys_single .realign ((conveys_realign hsize hput).andThen fun _ => Answer.moved)

/-- **So is one write after the other.** -/
theorem conveys_all (hsize : 8 ∣ size) {writes : List Write} (hput : putAll w writes = .ok w') :
    Conveys size w w' ((writes.flatMap matching).mapM Reader.answer) (writes.flatMap answers) := by
  induction writes generalizing w with
  | nil =>
    obtain rfl := Except.ok.inj hput
    exact Conveys.pure []
  | cons x writes ih =>
    rw [putAll, List.foldlM_cons] at hput
    obtain ⟨w₁, hfirst, hrest⟩ := Checked.ok_of_bind hput
    rw [List.flatMap_cons, List.flatMap_cons, List.mapM_append]
    exact (conveys_matching hsize hfirst).bind ((ih hrest).andThen (x.answers ++ ·))

end Conveyed

end Write

/-! ### Whole runs -/

/-- The ways in which a writer is made. -/
inductive Origin where
  /-- A new writer. -/
  | empty
  /-- A new writer with room for a number of bytes. -/
  | withCapacity (capacity : Nat)
  /-- A writer in the place of some bytes. -/
  | reusing (buffer : Array UInt8)

/-- The writer that is made. -/
def Origin.writer : Origin → Writer
  | empty => .empty
  | withCapacity capacity => .withCapacity capacity
  | reusing buffer => .reusing buffer

/-- A writer that has just been made has written nothing. -/
@[simp] theorem Origin.written_writer (origin : Origin) : origin.writer.written = [] := by
  cases origin with
  | empty => rfl
  | withCapacity capacity => rfl
  | reusing buffer => exact Writer.written_reusing buffer

/-- **Everything is read back.**  Whatever is written, no write fails, the number of bits written is
at each step the sum of the widths so far, and from the finished bytes the matching reads give what
was written and leave fewer than eight bits, all of them zero. -/
theorem Write.read_back (origin : Origin) (writes : List Write) :
    (∀ k, ∃ w, putAll origin.writer (writes.take k) = .ok w ∧
      w.bitsWritten = ((widths 0 writes).take k).sum) ∧
    ∃ w bytes r, putAll origin.writer writes = .ok w ∧ w.finish = .ok bytes ∧
      (writes.flatMap matching).mapM Reader.answer (Reader.ofBytes bytes) =
        .ok (writes.flatMap answers) r ∧
      r.bitsLeft < 8 ∧ r.unread = List.replicate r.bitsLeft false := by
  have hnothing : origin.writer.written.length = 0 := by rw [origin.written_writer]; rfl
  constructor
  · intro k
    obtain ⟨w, hput, hlength⟩ := exists_putAll origin.writer (writes.take k)
    refine ⟨w, hput, ?_⟩
    rw [← Writer.length_written, hlength, hnothing, Nat.zero_add, widths_take]
  · obtain ⟨w, hput, -⟩ := exists_putAll origin.writer writes
    obtain ⟨bytes, hfinish, hbytes⟩ := w.exists_finish
    have hsize := dvd_add_padding w.written.length
    obtain ⟨bits, hbits, hreads⟩ := conveys_all hsize hput
    rw [origin.written_writer, List.nil_append] at hbits
    -- Behind what was written stand the zeros up to the boundary.
    obtain ⟨r, hrun, hsound, hrest⟩ :=
      hreads (List.replicate (padding w.written.length) false) (by simp) (Reader.ofBytes bytes)
        (Reader.sound_ofBytes _) (by rw [← hbits, ← hbytes]; exact Reader.unread_ofBytes _)
    have hleft : r.bitsLeft = padding w.written.length := by
      rw [hsound.toLoaded.bitsLeft_eq, hrest, List.length_replicate]
    refine ⟨w, bytes, r, hput, hfinish, hrun, ?_, ?_⟩
    · rw [hleft]
      exact padding_lt _
    · rw [hrest, hleft]

end DolbyVision.Bits
