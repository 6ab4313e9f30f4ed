/-
**Blocks that find no room and blocks that are not known.**

A group may hold more blocks than a decoder keeps, and levels that its version does not know.  Every
block says how long it is, so a decoder passes over those and stays in step: what it keeps of a
group are the first blocks of each sort, as if nothing else had been there.

A decoder reports what it passes over.  Its notes have no part in what it reads, and
`Decoder.Consumes` leaves them open.

Main definitions:

* `DolbyVision.Decoder.Consumes` — a decoder takes given bits and gives a value;
* `DolbyVision.Item` — what stands in a group: a block, or a level that is not known there;
* `DolbyVision.IsGroup` — the bits of a group of given items;
* `DolbyVision.BlockSet.firstOf` — as many blocks of each sort as there is room for.

Main results:

* `DolbyVision.BlockSet.push_firstOf`, `DolbyVision.BlockSet.firstOf_of_full` — a block is added if
  there is room, and makes no difference otherwise;
* `DolbyVision.BlockGroup.consumes_item` — **an item is taken as a whole**, known or not;
* `DolbyVision.BlockGroup.consumes_read` — **the first blocks of a group are kept**.
-/

import DolbyVision.Proofs.Rpu.Writable

set_option relaxedAutoImplicit false
set_option autoImplicit false

namespace DolbyVision

open Bits

/-! ### Reading with notes -/

namespace Decoder

section Consumes

variable {α β : Type} {p : Decoder α} {f : α → Decoder β} {bits bits₁ bits₂ rest : List Bool}
  {a : α} {b : β}

/-- The decoder `p`, started in front of `bits` and then `rest`, takes `bits` and gives `a`,
whatever it reports. -/
def Consumes (p : Decoder α) (bits rest : List Bool) (a : α) : Prop :=
  ∀ s : DecoderState, s.reader.Sound → s.reader.unread = bits ++ rest →
    ∃ s', p s = .ok a s' ∧ s'.reader.Sound ∧ s'.reader.unread = rest

theorem Consumes.ofReads (h : Reads p bits rest a) : Consumes p bits rest a := by
  intro s hsound hunread
  obtain ⟨r, hrun, hsound', hrest⟩ := h s hsound hunread
  exact ⟨_, hrun, hsound', hrest⟩

/-- Decoders that follow one another take the bits of both. -/
theorem Consumes.bind (h₁ : Consumes p bits₁ (bits₂ ++ rest) a) (h₂ : Consumes (f a) bits₂ rest b) :
    Consumes (p >>= f) (bits₁ ++ bits₂) rest b := by
  intro s hsound hunread
  rw [List.append_assoc] at hunread
  obtain ⟨s₁, hfirst, hsound₁, hunread₁⟩ := h₁ s hsound hunread
  obtain ⟨s', hrest, hs'⟩ := h₂ s₁ hsound₁ hunread₁
  exact ⟨s', by rw [Run.bind_ok hfirst, hrest], hs'⟩

/-- A first step that takes nothing. -/
theorem Consumes.after (h₁ : Consumes p [] (bits ++ rest) a) (h₂ : Consumes (f a) bits rest b) :
    Consumes (p >>= f) bits rest b := by
  rw [← List.nil_append bits]
  exact h₁.bind h₂

/-- A last step that takes nothing. -/
theorem Consumes.andThen (h₁ : Consumes p bits rest a) (h₂ : Consumes (f a) [] rest b) :
    Consumes (p >>= f) bits rest b := by
  rw [← List.append_nil bits]
  exact Consumes.bind h₁ h₂

theorem Consumes.pure (rest : List Bool) (a : α) : Consumes (Pure.pure a) [] rest a :=
  .ofReads (Reads.pure rest a)

theorem Consumes.ofExcept {x : Except Fault α} (rest : List Bool) (h : x = .ok a) :
    Consumes (liftM x) [] rest a :=
  .ofReads (Reads.ofExcept rest h)

/-- A check that passes leaves what follows it. -/
theorem Consumes.guard {c : Prop} [Decidable c] {fault : Fault} {g : Unit → Decoder β} (hc : ¬ c)
    (h : Consumes (g ()) bits rest b) :
    Consumes (if c then (throw fault : Decoder Unit) >>= g else g ()) bits rest b := by
  rwa [if_neg hc]

theorem consumes_report (note : Note) : Consumes (report note) [] rest () := by
  intro s hsound hunread
  exact ⟨_, rfl, hsound, hunread⟩

theorem consumes_bitsLeft : Consumes bitsLeft [] rest rest.length := by
  intro s hsound hunread
  refine ⟨s, ?_, hsound, hunread⟩
  have hunread' : s.reader.unread = rest := hunread
  rw [← hunread', ← hsound.bitsLeft_eq]
  rfl

end Consumes

end Decoder

/-! ### Items -/

/-- The version of a group knows a level: there are blocks of this level in it. -/
def BlockGroup.Knows (group : BlockGroup) (level : UInt8) : Prop :=
  ∃ b : Block, b.group = group ∧ b.level = level

/-- The levels that the version of a group knows. -/
def BlockGroup.levels : BlockGroup → List UInt8
  | first => [1, 2, 4, 5, 6, 255]
  | second => [3, 8, 9, 10, 11, 254]

/-- What stands in a group: a block, or a level that is not known there with a body. -/
inductive Item where
  | known (b : Block)
  | unknown (level : UInt8) (body : List UInt8)

namespace Item

/-- The level of an item. -/
def level : Item → UInt8
  | known b => b.level
  | unknown level _ => level

/-- The length of an item in bytes. -/
def length : Item → Nat
  | known b => b.codedLength
  | unknown _ body => body.length

/-- The bits of the body of an item. -/
def body : Item → List Bool
  | known b => b.bodyBits
  | unknown _ body => ofBytes body

/-- The bits of an item: its length, its level and its body. -/
def bits (i : Item) : List Bool :=
  unsignedCodeBits i.length ++ (toBits 8 i.level.toNat ++ i.body)

/-- The block of an item, if it is known. -/
def block? : Item → Option Block
  | known b => some b
  | unknown _ _ => none

/-- A block of the group whose fields fit in their bits, or a level that the group does not know. -/
def BelongsTo (group : BlockGroup) : Item → Prop
  | known b => b.group = group ∧ b.Fits
  | unknown level _ => ¬ group.Knows level

end Item

/-- The blocks of a list of items, in their order. -/
def knownBlocks (items : List Item) : List Block :=
  items.filterMap Item.block?

/-- The bits of a group of items that begins at a given position: the number of the items, what
fills up the byte, and the items. -/
def IsGroup (position : Nat) (items : List Item) (bits : List Bool) : Prop :=
  ∃ fill, fill.length = padding (position + (unsignedCodeBits items.length).length) ∧
    bits = unsignedCodeBits items.length ++ (fill ++ items.flatMap Item.bits)

/-- The number of items and their lengths have codes. -/
structure HaveCodes (items : List Item) : Prop where
  count : items.length ≤ maxCode
  length : ∀ i ∈ items, 8 * i.length < 2 ^ 32

theorem BlockGroup.knows_iff {group : BlockGroup} {level : UInt8} :
    group.Knows level ↔ level ∈ group.levels := by
  constructor
  · rintro ⟨b, rfl, rfl⟩
    cases b <;> exact of_decide_eq_true rfl
  · intro hlevel
    cases group with
    | first =>
      simp only [levels, List.mem_cons, List.not_mem_nil, or_false] at hlevel
      rcases hlevel with rfl | rfl | rfl | rfl | rfl | rfl
      exacts [⟨.level1 {}, rfl, rfl⟩, ⟨.level2 {}, rfl, rfl⟩, ⟨.level4 {}, rfl, rfl⟩,
        ⟨.level5 {}, rfl, rfl⟩, ⟨.level6 {}, rfl, rfl⟩, ⟨.level255 {}, rfl, rfl⟩]
    | second =>
      simp only [levels, List.mem_cons, List.not_mem_nil, or_false] at hlevel
      rcases hlevel with rfl | rfl | rfl | rfl | rfl | rfl
      exacts [⟨.level3 {}, rfl, rfl⟩, ⟨.level8 {}, rfl, rfl⟩, ⟨.level9 {}, rfl, rfl⟩,
        ⟨.level10 {}, rfl, rfl⟩, ⟨.level11 {}, rfl, rfl⟩, ⟨.level254 {}, rfl, rfl⟩]

theorem Block.length_bodyBits (b : Block) : b.bodyBits.length = 8 * b.codedLength := by
  have hle := (length_bounds b).1
  rw [bodyBits, List.length_append, Field.length_bits, length_toBits]
  omega

/-- A block is written as the same bits wherever a writer stands. -/
theorem Block.written_put {b : Block} {w w' : Writer} (hput : b.put w = .ok w') :
    w'.written = w.written ++ (Item.known b).bits :=
  (BlockGroup.written_block hput).2

namespace Item

variable (i : Item)

@[simp] theorem length_body : i.body.length = 8 * i.length := by
  cases i with
  | known b => exact b.length_bodyBits
  | unknown level body => exact length_ofBytes body

/-- An item takes at least one bit for its length and eight for its level. -/
theorem length_bits_ge : 9 + 8 * i.length ≤ i.bits.length := by
  have hcode := one_le_length_unsignedCodeBits i.length
  rw [bits, List.length_append, List.length_append, length_toBits, length_body]
  omega

theorem length_flatMap_bits_ge (items : List Item) :
    9 * items.length ≤ (items.flatMap bits).length := by
  induction items with
  | nil => exact Nat.zero_le _
  | cons i items ih =>
    have hitem := i.length_bits_ge
    rw [List.flatMap_cons, List.length_append, List.length_cons]
    omega

/-- An item is not longer than the whole that it is a part of. -/
theorem length_le_of_mem {items : List Item} {i : Item} (hi : i ∈ items) :
    8 * i.length ≤ (items.flatMap bits).length := by
  have hitem := i.length_bits_ge
  have hpart : i.bits.length ≤ ((items.map bits).flatten).length :=
    (List.sublist_flatten_of_mem (List.mem_map_of_mem hi)).length_le
  rw [← List.flatMap_def] at hpart
  omega

end Item

theorem haveCodes_nil : HaveCodes [] where
  count := Nat.zero_le _
  length := by simp

/-- What is counted has codes if it fits in a whole that is not too long. -/
theorem IsGroup.haveCodes {position : Nat} {items : List Item} {bits : List Bool}
    (h : IsGroup position items bits) (hsize : bits.length < 2 ^ 32) : HaveCodes items := by
  obtain ⟨fill, -, rfl⟩ := h
  rw [List.length_append, List.length_append] at hsize
  have hcount := Item.length_flatMap_bits_ge items
  refine ⟨by unfold maxCode; omega, fun i hi => ?_⟩
  have hlength := Item.length_le_of_mem hi
  omega

/-! ### Room -/

namespace BlockSet

/-- The first blocks of each sort, as many as there is room for. -/
def firstOf (blocks : List Block) : BlockSet where
  static := (blocks.filter Block.isStatic).take maxStatic
  dynamic := (blocks.filter fun b => !b.isStatic).take maxDynamic

theorem firstOf_nil : firstOf [] = {} := rfl

/-- Whether there is room for a block of a given level. -/
def hasRoom (s : BlockSet) (level : UInt8) : Bool :=
  if levelIsStatic level then s.static.length < maxStatic else s.dynamic.length < maxDynamic

/-- The first items of a list that grows by one. -/
theorem take_concat {α : Type} (n : Nat) (l : List α) (a : α) :
    (l ++ [a]).take n = if (l.take n).length < n then l.take n ++ [a] else l.take n := by
  rw [List.take_append, List.length_take]
  by_cases hlt : l.length < n
  · have hone : [a].length ≤ n - l.length := Nat.le_sub_of_add_le' hlt
    rw [if_pos (by omega), List.take_of_length_le (Nat.le_of_lt hlt), List.take_of_length_le hone]
  · rw [if_neg (by omega), Nat.sub_eq_zero_of_le (by omega), List.take_zero, List.append_nil]

variable {blocks : List Block} {b : Block}

theorem static_firstOf_concat (hstatic : b.isStatic = true) :
    firstOf (blocks ++ [b]) = { firstOf blocks with
      static := if (firstOf blocks).static.length < maxStatic
        then (firstOf blocks).static ++ [b] else (firstOf blocks).static } := by
  unfold firstOf
  simp [hstatic, take_concat]

theorem dynamic_firstOf_concat (hdynamic : b.isStatic = false) :
    firstOf (blocks ++ [b]) = { firstOf blocks with
      dynamic := if (firstOf blocks).dynamic.length < maxDynamic
        then (firstOf blocks).dynamic ++ [b] else (firstOf blocks).dynamic } := by
  unfold firstOf
  simp [hdynamic, take_concat]

/-- **A block for which there is room is added.** -/
theorem push_firstOf (hroom : (firstOf blocks).hasRoom b.level = true) :
    (firstOf blocks).push b = .ok (firstOf (blocks ++ [b])) := by
  have hlevel : levelIsStatic b.level = b.isStatic := rfl
  rw [hasRoom, hlevel] at hroom
  cases hstatic : b.isStatic with
  | true =>
    rw [hstatic, if_pos rfl, decide_eq_true_eq] at hroom
    rw [static_firstOf_concat hstatic, if_pos hroom, push, if_pos hstatic,
      if_neg (Nat.not_le.2 hroom)]
  | false =>
    rw [hstatic, if_neg Bool.false_ne_true, decide_eq_true_eq] at hroom
    rw [dynamic_firstOf_concat hstatic, if_pos hroom, push, if_neg (by simp [hstatic]),
      if_neg (Nat.not_le.2 hroom)]

/-- **A block for which there is no room makes no difference.** -/
theorem firstOf_of_full (hfull : (firstOf blocks).hasRoom b.level = false) :
    firstOf (blocks ++ [b]) = firstOf blocks := by
  have hlevel : levelIsStatic b.level = b.isStatic := rfl
  rw [hasRoom, hlevel] at hfull
  cases hstatic : b.isStatic with
  | true =>
    rw [hstatic, if_pos rfl, decide_eq_false_iff_not] at hfull
    rw [static_firstOf_concat hstatic, if_neg hfull]
  | false =>
    rw [hstatic, if_neg Bool.false_ne_true, decide_eq_false_iff_not] at hfull
    rw [dynamic_firstOf_concat hstatic, if_neg hfull]

end BlockSet

/-! ### Reading -/

namespace BlockGroup

open Decoder

variable {group : BlockGroup} {strictness : Strictness} {kept : BlockSet} {level : UInt8}
  {rest : List Bool} {blocks : List Block} {i : Item}

/-- Without compression, blocks are passed over for which there is no room. -/
theorem consumes_passesOver :
    Consumes (passesOver false strictness kept level) [] rest (!kept.hasRoom level) := by
  unfold passesOver BlockSet.hasRoom
  by_cases hstatic : levelIsStatic level = true
  · rw [if_pos hstatic, if_pos hstatic, if_neg Bool.false_ne_true]
    by_cases hfull : BlockSet.maxStatic ≤ kept.static.length
    · rw [if_pos hfull, decide_eq_false (Nat.not_lt.2 hfull)]
      exact (consumes_report _).after (.pure rest true)
    · rw [if_neg hfull, decide_eq_true (Nat.not_le.1 hfull)]
      exact .pure rest false
  · rw [if_neg hstatic, if_neg hstatic]
    by_cases hfull : BlockSet.maxDynamic ≤ kept.dynamic.length
    · rw [if_pos hfull, decide_eq_false (Nat.not_lt.2 hfull)]
      exact (consumes_report _).after (.pure rest true)
    · rw [if_neg hfull, decide_eq_true (Nat.not_le.1 hfull)]
      exact .pure rest false

/-- The body of a level that is not known is not looked at. -/
theorem readBody_of_unknown (hunknown : ¬ group.Knows level) (length : Nat) :
    Block.readBody group level length = pure none := by
  have hno {n : Nat} (hn : level.toNat = n) (hlevel : UInt8.ofNat n ∈ group.levels) : False := by
    rw [← hn, UInt8.ofNat_toNat] at hlevel
    exact hunknown (knows_iff.2 hlevel)
  cases group with
  | first =>
    change Block.readFirst level = pure none
    unfold Block.readFirst
    split
    all_goals first | rfl | exact (hno ‹_› (by decide)).elim
  | second =>
    change Block.readSecond level length = pure none
    unfold Block.readSecond
    split
    all_goals first | rfl | exact (hno ‹_› (by decide)).elim

/-- A body that is not looked at is passed over. -/
theorem reads_unknown (hunknown : ¬ group.Knows level) (body : List UInt8)
    (hsize : 8 * body.length < 2 ^ 32) :
    Reads (readPadded group level body.length) (ofBytes body) rest none := by
  have hmul : Checked.mul 64 8 body.length = .ok (8 * body.length) :=
    Checked.within_of_lt (by rw [Nat.one_shiftLeft]; omega)
  have hwithin : Checked.within 32 (8 * body.length) = .ok (8 * body.length) :=
    Checked.within_of_lt (by rwa [Nat.one_shiftLeft])
  obtain ⟨w', -, hwritten⟩ := appends_putBytes body Writer.empty
  have hskip {size : Nat} : Conveys size Writer.empty w' (Reader.skip (8 * body.length)) () := by
    refine Conveys.ofReads hwritten fun rest => ?_
    rw [← length_ofBytes]
    exact reads_skip rest (ofBytes body)
  refine Reads.ofConveys hwritten ?_
  unfold readPadded
  rw [readBody_of_unknown hunknown]
  refine (Conveys.ofExcept hmul).bind (Conveys.bindGet fun r hr => ?_)
  refine (Conveys.pure none).bind (Conveys.bindGet fun r' hr' => ?_)
  have htaken : Checked.sub r.bitsLeft r'.bitsLeft = .ok 0 := by
    rw [hr, hr', Checked.sub_of_le (Nat.le_refl _), Nat.sub_self]
  refine (Conveys.ofExcept htaken).bind (Conveys.guard (Nat.not_lt_zero _) ?_)
  refine (Conveys.ofExcept (Checked.sub_of_le (Nat.zero_le _))).bind ?_
  exact (Conveys.ofExcept hwithin).bind (hskip.bind (Conveys.pure none))

/-- The body of a block is read back wherever it stands. -/
theorem reads_known {b : Block} (hfits : b.Fits) :
    Reads (readPadded b.group b.level b.codedLength) b.bodyBits rest (some b) := by
  have hle := (Block.length_bounds b).1
  obtain ⟨w₁, hbody, hwritten₁⟩ := appends_putFields (b.width_le b.codedLength) Writer.empty
  obtain ⟨w', hpadding, hwritten⟩ := appends_put b.padding_le 0 w₁
  refine Reads.ofConveys ?_ ((conveys_readPadded hbody hle hpadding).congr ?_)
  · rw [hwritten, hwritten₁]
    rfl
  · rw [Block.coded_eq_self hfits]

/-- The body of an item is taken as a whole, and gives a block if it is known. -/
theorem reads_body (hi : i.BelongsTo group) (hsize : 8 * i.length < 2 ^ 32) :
    Reads (readPadded group i.level i.length) i.body rest i.block? := by
  cases i with
  | known b =>
    obtain ⟨rfl, hfits⟩ := hi
    exact reads_known hfits
  | unknown level body => exact reads_unknown hi body hsize

/-- **An item is taken as a whole**: a block is kept if there is room for it, and anything else
makes no difference. -/
theorem consumes_item (hi : i.BelongsTo group) (hlength : 8 * i.length < 2 ^ 32) :
    Consumes (readBlock group false strictness (.firstOf blocks)) i.bits rest
      (.firstOf (blocks ++ i.block?.toList)) := by
  have hmul : Checked.mul 64 8 i.length = .ok (8 * i.length) :=
    Checked.within_of_lt (by rw [Nat.one_shiftLeft]; omega)
  have hmul32 : Checked.mul 32 8 i.length = .ok (8 * i.length) :=
    Checked.within_of_lt (by rwa [Nat.one_shiftLeft])
  unfold readBlock Item.bits
  refine (Consumes.ofReads (reads_unsignedCode _ (by unfold maxCode; omega)).lift).bind ?_
  refine (Consumes.ofReads (reads_u8 _ (by decide) i.level).lift).bind ?_
  rw [lower8_eight]
  -- An item takes as many bytes as it says, whether it is kept or not.
  refine (Consumes.ofExcept _ hmul).after (consumes_bitsLeft.after (.guard ?_ ?_))
  · rw [List.length_append, Item.length_body]
    omega
  · refine consumes_passesOver.after ?_
    cases hroom : (BlockSet.firstOf blocks).hasRoom i.level with
    | false =>
      have hsame : BlockSet.firstOf (blocks ++ i.block?.toList) = .firstOf blocks := by
        cases i with
        | known b => exact BlockSet.firstOf_of_full hroom
        | unknown level body => exact congrArg _ (List.append_nil blocks)
      have hskip := reads_skip rest i.body
      rw [Item.length_body] at hskip
      rw [hsame]
      exact (Consumes.ofExcept _ hmul32).after ((Consumes.ofReads hskip.lift).andThen (.pure _ _))
    | true =>
      refine (Consumes.ofReads (reads_body hi hlength).lift).andThen ?_
      cases i with
      | known b => exact .ofExcept rest (BlockSet.push_firstOf hroom)
      | unknown level body =>
        have hsame : blocks ++ (Item.unknown level body).block?.toList = blocks :=
          List.append_nil blocks
        rw [hsame]
        exact (consumes_report _).after (.pure rest _)

/-- **Items are taken one after the other.** -/
theorem consumes_items {items : List Item} (hitems : ∀ i ∈ items, i.BelongsTo group)
    (hlengths : ∀ i ∈ items, 8 * i.length < 2 ^ 32) :
    Consumes (readBlocks group false strictness items.length (.firstOf blocks))
      (items.flatMap Item.bits) rest (.firstOf (blocks ++ knownBlocks items)) := by
  induction items generalizing blocks with
  | nil =>
    have hsame : blocks ++ knownBlocks [] = blocks := List.append_nil blocks
    rw [hsame]
    exact .pure rest _
  | cons i items ih =>
    obtain ⟨hi, hitems⟩ := List.forall_mem_cons.1 hitems
    obtain ⟨hlength, hlengths⟩ := List.forall_mem_cons.1 hlengths
    have hblocks : blocks ++ knownBlocks (i :: items) =
        blocks ++ i.block?.toList ++ knownBlocks items := by
      rw [knownBlocks, List.filterMap_cons, List.append_assoc]
      cases i <;> rfl
    rw [hblocks, List.flatMap_cons]
    exact (consumes_item hi hlength).bind (ih hitems hlengths)

/-- **The first blocks of a group are kept**, behind those of the group before it. -/
theorem consumes_read {position : Nat} {items : List Item} {bits : List Bool}
    (hbits : IsGroup position items bits) (hitems : ∀ i ∈ items, i.BelongsTo group)
    (hcodes : HaveCodes items) (hwhole : 8 ∣ position + bits.length + rest.length) :
    Consumes (read group false strictness (.firstOf blocks)) bits rest
      (.firstOf (blocks ++ knownBlocks items)) := by
  obtain ⟨fill, hfill, rfl⟩ := hbits
  have hlt := padding_lt (position + (unsignedCodeBits items.length).length)
  have hdvd := dvd_add_padding (position + (unsignedCodeBits items.length).length)
  simp only [List.length_append] at hwhole
  unfold read
  refine (Consumes.ofReads (reads_unsignedCode _ hcodes.count).lift).bind ?_
  refine (Consumes.ofReads (reads_realign _ ?_).lift).bind (consumes_items hitems hcodes.length)
  -- What is left behind the boundary is a number of bytes, like the whole.
  simp only [List.length_append]
  omega

end BlockGroup

end DolbyVision
