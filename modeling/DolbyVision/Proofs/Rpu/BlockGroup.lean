/-
**Groups of blocks are read back.**

A group is written as the number of its blocks and, from the next boundary on, the blocks.  A
decoder that reads it adds each block, as it was coded, to those that it has.  This needs room for
all of them, and no static block among compressed data.

Main definitions:

* `DolbyVision.Block.bodyBits` — the bits of the body of a block.

Main results:

* `DolbyVision.BlockGroup.conveys_block` — a block is read and kept;
* `DolbyVision.BlockGroup.conveys` — **a group is read back**;
* `DolbyVision.BlockGroup.length_put` — **a group takes what its blocks take**.
-/

import DolbyVision.Proofs.Rpu.BlockSet

set_option relaxedAutoImplicit false
set_option autoImplicit false

namespace DolbyVision

open Bits

/-- The bits of the body of a block: its fields, and zero bits up to its length. -/
def Block.bodyBits (b : Block) : List Bool :=
  Field.bits (b.bodyFields b.codedLength) ++
    toBits (8 * b.codedLength - Field.totalWidth (b.bodyFields b.codedLength)) 0

/-! ### Reading with notes -/

instance : ReadingState DecoderState where
  reader s := s.reader
  withReader s r := { s with reader := r }
  reader_withReader _ _ := rfl
  withReader_reader _ := rfl
  withReader_withReader _ _ _ := rfl

section Lift

variable {α : Type} {size : Nat} {w w' : Writer} {p : BitParser α} {a : α}

theorem Decoder.lift_ok {s : DecoderState} {r : Reader} (h : p s.reader = .ok a r) :
    (liftM p : Decoder α) s = .ok a { s with reader := r } := by
  simp only [liftM, monadLift, MonadLift.monadLift, h]

theorem Decoder.lift_error {s : DecoderState} {r : Reader} {fault : Fault}
    (h : p s.reader = .error fault r) :
    (liftM p : Decoder α) s = .error fault { s with reader := r } := by
  simp only [liftM, monadLift, MonadLift.monadLift, h]

/-- A read takes the same bits as a part of a decoder, and the notes stay. -/
theorem Bits.Reads.lift {bits rest : List Bool} (h : Reads p bits rest a) :
    Reads (liftM p : Decoder α) bits rest a := by
  intro s hsound hunread
  obtain ⟨r, hrun, hsound', hrest⟩ := h s.reader hsound hunread
  exact ⟨r, Decoder.lift_ok hrun, hsound', hrest⟩

theorem Bits.Conveys.lift (h : Conveys size w w' p a) :
    Conveys size w w' (liftM p : Decoder α) a := by
  obtain ⟨bits, hbits, hreads⟩ := h
  exact ⟨bits, hbits, fun rest hrest => (hreads rest hrest).lift⟩

/-- What is known of the value of a read is known of it as a part of a decoder. -/
theorem Run.Gives.lift {P : α → Prop} (h : Run.Gives p P) :
    Run.Gives (liftM p : Decoder α) P := by
  intro s a' s' hrun
  cases hp : p s.reader with
  | ok a r =>
    rw [Decoder.lift_ok hp] at hrun
    cases hrun
    exact h _ _ _ hp
  | error fault r =>
    rw [Decoder.lift_error hp] at hrun
    cases hrun

/-- The number of bits that are left in front of a position. -/
theorem Decoder.conveys_bitsLeft :
    Conveys size w w Decoder.bitsLeft (size - w.written.length) := by
  refine ⟨[], (List.append_nil _).symm, fun rest hrest s hsound hunread => ?_⟩
  refine ⟨s.reader, ?_, hsound, hunread⟩
  have hunread' : s.reader.unread = [] ++ rest := hunread
  have hleft : s.reader.bitsLeft = size - w.written.length := by
    have hlength : s.reader.bitsLeft = s.reader.unread.length := hsound.bitsLeft_eq
    rw [hlength, hunread', List.nil_append]
    omega
  rw [← hleft]
  rfl

end Lift

namespace BlockGroup

variable {size : Nat} {w w' : Writer}

/-! ### Blocks -/

/-- The four writes of a block, the last of which fills it up. -/
theorem ok_putBlock {b : Block} (hput : b.put w = .ok w') :
    ∃ w₁ w₂ w₃, w.putUnsignedCode b.codedLength = .ok w₁ ∧
      w₁.put 8 b.level.toNat = .ok w₂ ∧
      w₂.putFields (b.bodyFields b.codedLength) = .ok w₃ ∧
      Field.totalWidth (b.bodyFields b.codedLength) ≤ 8 * b.codedLength ∧
      w₃.put (8 * b.codedLength - Field.totalWidth (b.bodyFields b.codedLength)) 0 = .ok w' := by
  unfold Block.put at hput
  obtain ⟨w₁, hlength, hput⟩ := Checked.ok_of_bind hput
  obtain ⟨w₂, hlevel, hput⟩ := Checked.ok_of_bind hput
  obtain ⟨w₃, hbody, hput⟩ := Checked.ok_of_bind hput
  obtain ⟨written, hwritten, hput⟩ := Checked.ok_of_bind hput
  obtain ⟨size, hsize, hput⟩ := Checked.ok_of_bind hput
  obtain ⟨padding, hpadding, hput⟩ := Checked.ok_of_bind hput
  obtain ⟨-, rfl⟩ := Checked.sub_eq_ok hwritten
  obtain ⟨-, rfl⟩ := Checked.within_eq_ok hsize
  obtain ⟨hle, rfl⟩ := Checked.sub_eq_ok hpadding
  rw [Writer.bitsWritten_of_putFields hbody] at hle hput
  exact ⟨w₁, w₂, w₃, hlength, hlevel, hbody, hle, hput⟩

/-- A block appends the code of its length, its level and its body, which is not longer than its
length says. -/
theorem written_block {b : Block} (hput : b.put w = .ok w') :
    Field.totalWidth (b.bodyFields b.codedLength) ≤ 8 * b.codedLength ∧
      w'.written = w.written ++
        (unsignedCodeBits b.codedLength ++ (toBits 8 b.level.toNat ++ b.bodyBits)) := by
  obtain ⟨w₁, w₂, w₃, hlength, hlevel, hbody, hle, hpadding⟩ := ok_putBlock hput
  refine ⟨hle, ?_⟩
  rw [(Writer.written_of_put hpadding).2, Writer.written_of_putFields hbody,
    (Writer.written_of_put hlevel).2, Writer.written_of_putUnsignedCode hlength]
  simp only [Block.bodyBits, List.append_assoc]

/-- No block is longer than one of level 8 with all its fields. -/
theorem codedLength_le (b : Block) : b.codedLength ≤ 25 := by
  cases b with
  | level8 d => simp only [Block.codedLength]; split_ifs <;> decide
  | level9 d => simp only [Block.codedLength]; split_ifs <;> decide
  | level10 d => simp only [Block.codedLength]; split_ifs <;> decide
  | _ => exact Nat.le_of_ble_eq_true rfl

/-- The body of a block and what fills it up are read back. -/
theorem conveys_readPadded {b : Block} {w₁ : Writer}
    (hbody : w.putFields (b.bodyFields b.codedLength) = .ok w₁)
    (hle : Field.totalWidth (b.bodyFields b.codedLength) ≤ 8 * b.codedLength)
    (hpadding :
      w₁.put (8 * b.codedLength - Field.totalWidth (b.bodyFields b.codedLength)) 0 = .ok w') :
    Conveys size w w' (readPadded b.group b.level b.codedLength) (some b.coded) := by
  have hlength := codedLength_le b
  have hmul : Checked.mul 64 8 b.codedLength = .ok (8 * b.codedLength) :=
    Checked.within_of_lt (by rw [Nat.one_shiftLeft]; omega)
  have hwidth : w₁.written.length =
      w.written.length + Field.totalWidth (b.bodyFields b.codedLength) := by
    rw [Writer.written_of_putFields hbody, List.length_append, Field.length_bits]
  have hwritten := (Writer.written_of_put hpadding).2
  set width := Field.totalWidth (b.bodyFields b.codedLength)
  refine Conveys.ofFits ?_ fun hfits => ?_
  · rw [hwritten, Writer.written_of_putFields hbody, List.append_assoc]
    exact List.prefix_append ..
  · rw [hwritten, List.length_append, hwidth, length_toBits] at hfits
    unfold readPadded
    refine (Conveys.ofExcept hmul).bind (Conveys.bindGet fun r hr => ?_)
    refine (Block.conveys_body hbody).bind (Conveys.bindGet fun r' hr' => ?_)
    -- The body is measured by what is left in front of it and behind it.
    have htaken : Checked.sub r.bitsLeft r'.bitsLeft = .ok width := by
      rw [hwidth] at hr'
      rw [Checked.sub_of_le (by omega)]
      congr 1
      omega
    have hskip : Checked.within 32 (8 * b.codedLength - width) = .ok (8 * b.codedLength - width) :=
      Checked.within_of_lt (by rw [Nat.one_shiftLeft]; omega)
    refine (Conveys.ofExcept htaken).bind (Conveys.guard (Nat.not_lt.2 hle) ?_)
    refine (Conveys.ofExcept (Checked.sub_of_le hle)).bind ?_
    refine (Conveys.ofExcept hskip).bind ((conveys_skip hpadding).bind ?_)
    exact Conveys.pure _

/-- A block is not passed over if there is room for it, unless it is a static block among compressed
data. -/
theorem passesOver_eq {compressed : Bool} {strictness : Strictness} {kept : BlockSet} {b : Block}
    (hcompressed : compressed = true → b.isStatic = false)
    (hroom : (kept.append [b]).WithinLimits) :
    passesOver compressed strictness kept b.level = pure false := by
  have hlevel : levelIsStatic b.level = b.isStatic := rfl
  unfold passesOver
  rw [hlevel]
  cases hstatic : b.isStatic with
  | true =>
    have hfree : ¬ compressed = true := fun hc => by simp [hcompressed hc] at hstatic
    have hlt := hroom.static_le
    rw [BlockSet.append_static hstatic, List.length_append, List.length_singleton] at hlt
    rw [if_pos rfl, if_neg hfree, if_neg (by omega)]
  | false =>
    have hlt := hroom.dynamic_le
    rw [BlockSet.append_dynamic hstatic, List.length_append, List.length_singleton] at hlt
    rw [if_neg Bool.false_ne_true, if_neg (by omega)]

/-- **A block is read and kept**, as it was coded. -/
theorem conveys_block {compressed : Bool} {strictness : Strictness} {kept : BlockSet} {b : Block}
    (hcompressed : compressed = true → b.isStatic = false)
    (hroom : (kept.append [b.coded]).WithinLimits) (hput : b.put w = .ok w') :
    Conveys size w w' (readBlock b.group compressed strictness kept) (kept.append [b.coded]) := by
  obtain ⟨w₁, w₂, w₃, hcoded, hlevel, hbody, hle, hpadding⟩ := ok_putBlock hput
  have hlength := codedLength_le b
  have hcode : b.codedLength ≤ maxCode := by unfold maxCode; omega
  have hmul : Checked.mul 64 8 b.codedLength = .ok (8 * b.codedLength) :=
    Checked.within_of_lt (by rw [Nat.one_shiftLeft]; omega)
  have hpass : passesOver compressed strictness kept b.coded.level = pure false :=
    passesOver_eq (by rwa [Block.isStatic_coded]) hroom
  have hpush : kept.push b.coded = .ok (kept.append [b.coded]) :=
    (BlockSet.push_eq_ok_iff hroom.of_append).2 ⟨hroom, rfl⟩
  refine Conveys.ofFits ?_ fun hfits => ?_
  · rw [(written_block hput).2]
    exact List.prefix_append ..
  · rw [(Writer.written_of_put hpadding).2, Writer.written_of_putFields hbody, List.length_append,
      List.length_append, Field.length_bits, length_toBits] at hfits
    unfold readBlock
    refine (conveys_unsignedCode hcode hcoded).lift.bind ?_
    refine (conveys_u8 (by decide) hlevel).lift.bind ?_
    rw [lower8_eight]
    refine (Conveys.ofExcept hmul).bind ?_
    refine Decoder.conveys_bitsLeft.bind (Conveys.guard (by omega) ?_)
    -- Whether a block is passed over is decided by its level, which is coded without loss.
    rw [← Block.level_coded, hpass, Block.level_coded]
    refine (Conveys.pure false).bind ?_
    refine (conveys_readPadded hbody hle hpadding).lift.bind ?_
    exact Conveys.ofExcept hpush

/-- Blocks of a group are read and kept one after the other. -/
theorem conveys_blocks {group : BlockGroup} {compressed : Bool} {strictness : Strictness}
    {kept : BlockSet} {blocks : List Block} (hgroup : ∀ b ∈ blocks, b.group = group)
    (hcompressed : ∀ b ∈ blocks, compressed = true → b.isStatic = false)
    (hroom : (kept.append (blocks.map Block.coded)).WithinLimits)
    (hput : blocks.foldlM Block.put w = .ok w') :
    Conveys size w w' (readBlocks group compressed strictness blocks.length kept)
      (kept.append (blocks.map Block.coded)) := by
  induction blocks generalizing w kept with
  | nil =>
    obtain rfl := Except.ok.inj hput
    exact (Conveys.pure kept).congr kept.append_nil.symm
  | cons b blocks ih =>
    rw [List.foldlM_cons] at hput
    obtain ⟨w₁, hfirst, hrest⟩ := Checked.ok_of_bind hput
    rw [List.map_cons, BlockSet.append_cons] at hroom ⊢
    obtain rfl := hgroup b List.mem_cons_self
    refine (conveys_block (hcompressed b List.mem_cons_self) hroom.of_append hfirst).bind ?_
    exact ih (fun b' hb' => hgroup b' (List.mem_cons_of_mem b hb'))
      (fun b' hb' => hcompressed b' (List.mem_cons_of_mem b hb')) hroom hrest

/-- The writes of a group: the number of its blocks, up to the next boundary, and the blocks. -/
theorem ok_put {blocks : List Block} (hput : put w blocks = .ok w') :
    ∃ w₁ w₂, w.putUnsignedCode blocks.length = .ok w₁ ∧ w₁.realign = .ok w₂ ∧
      blocks.foldlM Block.put w₂ = .ok w' := by
  obtain ⟨w₁, hcount, hput⟩ := Checked.ok_of_bind hput
  obtain ⟨w₂, hrealign, hblocks⟩ := Checked.ok_of_bind hput
  exact ⟨w₁, w₂, hcount, hrealign, hblocks⟩

/-- **A group is read back**: its blocks are kept behind those that a decoder has. -/
theorem conveys {group : BlockGroup} {compressed : Bool} {strictness : Strictness}
    {kept : BlockSet} {blocks : List Block} (hsize : 8 ∣ size)
    (hgroup : ∀ b ∈ blocks, b.group = group)
    (hcompressed : ∀ b ∈ blocks, compressed = true → b.isStatic = false)
    (hroom : (kept.append (blocks.map Block.coded)).WithinLimits)
    (hput : put w blocks = .ok w') :
    Conveys size w w' (read group compressed strictness kept)
      (kept.append (blocks.map Block.coded)) := by
  have hlength : blocks.length ≤ BlockSet.maxStatic + BlockSet.maxDynamic := by
    have h := hroom.length_le
    rwa [List.length_map] at h
  have hcode : blocks.length ≤ maxCode := le_trans hlength (by decide)
  obtain ⟨w₁, w₂, hcount, hrealign, hblocks⟩ := ok_put hput
  unfold read
  refine (conveys_unsignedCode hcode hcount).lift.bind ?_
  refine (conveys_realign hsize hrealign).lift.bind ?_
  exact conveys_blocks hgroup hcompressed hroom hblocks

/-! ### Lengths -/

/-- The number of bits of a block: the code of its length, its level, and its length in bytes. -/
def codedBits (b : Block) : Nat :=
  (unsignedCodeBits b.codedLength).length + 8 + 8 * b.codedLength

/-- A block takes at least one bit for its length and eight for its level. -/
theorem codedBits_ge (b : Block) : 9 ≤ codedBits b := by
  have hcode := one_le_length_unsignedCodeBits b.codedLength
  unfold codedBits
  omega

theorem sum_codedBits_ge (blocks : List Block) :
    9 * blocks.length ≤ (blocks.map codedBits).sum := by
  induction blocks with
  | nil => exact Nat.zero_le _
  | cons b blocks ih =>
    have hblock := codedBits_ge b
    rw [List.map_cons, List.sum_cons, List.length_cons]
    omega

theorem length_block {b : Block} (hput : b.put w = .ok w') :
    w'.written.length = w.written.length + codedBits b := by
  obtain ⟨hle, hwritten⟩ := written_block hput
  rw [hwritten]
  simp only [Block.bodyBits, codedBits, List.length_append, length_toBits, Field.length_bits]
  omega

theorem length_blocks {blocks : List Block} (hput : blocks.foldlM Block.put w = .ok w') :
    w'.written.length = w.written.length + (blocks.map codedBits).sum := by
  induction blocks generalizing w with
  | nil =>
    obtain rfl := Except.ok.inj hput
    rfl
  | cons b blocks ih =>
    rw [List.foldlM_cons] at hput
    obtain ⟨w₁, hfirst, hrest⟩ := Checked.ok_of_bind hput
    rw [ih hrest, length_block hfirst, List.map_cons, List.sum_cons, Nat.add_assoc]

/-- **A group takes what its blocks take**, behind their number and the padding of that. -/
theorem length_put {blocks : List Block} (hput : put w blocks = .ok w') :
    w'.written.length =
      w.written.length + (unsignedCodeBits blocks.length).length +
        padding (w.written.length + (unsignedCodeBits blocks.length).length) +
        (blocks.map codedBits).sum := by
  obtain ⟨w₁, w₂, hcount, hrealign, hblocks⟩ := ok_put hput
  rw [length_blocks hblocks, Writer.written_of_realign hrealign,
    Writer.written_of_putUnsignedCode hcount, List.length_append, List.length_append,
    List.length_replicate]

/-- A group takes at least nine bits for each of its blocks. -/
theorem length_put_ge {blocks : List Block} (hput : put w blocks = .ok w') :
    w.written.length + 9 * blocks.length ≤ w'.written.length := by
  have hblocks := length_put hput
  have hsum := sum_codedBits_ge blocks
  omega

end BlockGroup

end DolbyVision
