/-
**What a decoder makes of an RPU that was planned.**

A decoder that reads an RPU which an encoder has planned and written comes into a state that can be
said without bits (`Stream.receive`).  It does so if it has what the RPU refers to and if the RPU
keeps to the profile of the stream (`Stream.Accepts`).

Main definitions:

* `DolbyVision.Stream.receive` — the state of a decoder after an RPU;
* `DolbyVision.Stream.Permits`, `DolbyVision.Stream.Accepts` — what a decoder needs for that;
* `DolbyVision.Stream.readParts` — what a decoder does behind the flags of an RPU.

Main results:

* `DolbyVision.Stream.conveys_rpu` — **a decoder that accepts an RPU comes into that state**;
* `DolbyVision.Stream.refuses_residual`, `DolbyVision.Stream.refuses_color` — an RPU of profile 5
  with a residual and compressed data without a color description to refer to are refused.
-/

import DolbyVision.Proofs.Stream.Plan

set_option relaxedAutoImplicit false
set_option autoImplicit false

namespace DolbyVision

open Bits

/-! ### The state after an RPU -/

namespace Stream

/-- The color description that a decoder gets: that of the RPU, or the one that it has with the
identifiers of the RPU. -/
def receivedColor (d : Stream) (p : Plan) : SourceColor :=
  if p.compressed then
    { d.color.getD {} with
      id := p.metadata.color.id, sceneRefresh := p.metadata.color.sceneRefresh }
  else p.metadata.color.coded

/-- The blocks that a decoder has before it reads those of an RPU. -/
def keptBlocks (d : Stream) (p : Plan) : BlockSet :=
  { static := if p.compressed then (d.blocks.map BlockSet.static).getD [] else [] }

/-- The blocks that a decoder gets: those of both groups of the RPU behind those that it keeps. -/
def receivedBlocks (d : Stream) (p : Plan) : BlockSet :=
  ((d.keptBlocks p).append ((p.sentBlocks .first).map Block.coded)).append
    ((p.sentBlocks .second).map Block.coded)

/-- The state of a decoder after the mapping of an RPU. -/
def receiveMapping (d : Stream) (p : Plan) : Stream :=
  { d with
    active := some p.id
    slots :=
      if p.reuses then d.slots
      else d.slots.keep p.id (p.metadata.mapping.coded p.metadata.header) }

/-- The state of a decoder after an RPU. -/
def receive (d : Stream) (p : Plan) : Stream :=
  { d.receiveMapping p with
    header := p.metadata.header.coded
    color := if p.hasColor then some (d.receivedColor p) else d.color
    view := if p.hasColor then .sent else .assumed
    blocks :=
      if p.hasColor then
        if (d.receivedBlocks p).isEmpty then none else some (d.receivedBlocks p)
      else none }

/-- What the configuration of a decoder has to permit for it to read an RPU. -/
structure Permits (d : Stream) (p : Plan) (strictness : Strictness) : Prop where
  profile : d.configuration.profile ≠ 0
  compresses : d.compresses = (p.configured != .none)
  residual : d.configuration.profile = 5 → p.metadata.header.usesNlq = false
  careful : strictness.isCareful = true → d.compresses = true → 8 ≤ d.configuration.profile

/-- What a decoder needs to read an RPU: besides, it has what the RPU refers to. -/
structure Accepts (d : Stream) (p : Plan) (strictness : Strictness) : Prop extends
    d.Permits p strictness where
  slot : p.reuses = true → (d.slot p.id).isSome
  color : p.compressed = true → d.color.isSome
  room : p.hasColor = true → (d.receivedBlocks p).WithinLimits

variable {d : Stream} {p : Plan} {strictness : Strictness} {size : Nat} {w w' : Writer}

/-! ### Identifiers -/

/-- An identifier is read back. -/
theorem conveys_id {id : Id} (hput : w.putUnsignedCode id.val = .ok w') :
    Conveys size w w' readId id := by
  have hlt : id.val < maxId + 1 := id.isLt
  have hcode : id.val ≤ maxCode := by unfold maxCode; unfold maxId at hlt; omega
  unfold readId
  refine (conveys_unsignedCode hcode hput).bind ?_
  rw [dif_pos hlt]
  exact Conveys.pure id

/-! ### Flags and profile -/

/-- The flags of an RPU are read back.  The last one is there only if the stream compresses. -/
theorem conveys_compressed (hvalid : p.Valid)
    (hcompresses : d.compresses = (p.configured != .none))
    (hput : (if p.configured = .none then return w else w.putFlag p.compressed) = .ok w') :
    Conveys size w w' (if d.compresses then liftM Reader.flag else pure false : Decoder Bool)
      p.compressed := by
  by_cases hnone : p.configured = .none
  · have hoff : ¬ d.compresses = true := by rw [hcompresses, hnone]; decide
    rw [if_pos hnone] at hput
    obtain rfl := Except.ok.inj hput
    rw [if_neg hoff, (hvalid.uncompressed hnone).2]
    exact Conveys.pure false
  · have hon : d.compresses = true := by rw [hcompresses]; simpa using hnone
    rw [if_neg hnone] at hput
    rw [if_pos hon]
    exact (conveys_flag hput).lift

/-- The rules of the profile are kept. -/
theorem checkProfile_eq (hvalid : p.Valid) (ha : d.Permits p strictness) :
    d.checkProfile strictness p.metadata.header.coded p.reuses = pure () := by
  have hprofile : d.profileFor p.metadata.header.coded = d.configuration.profile :=
    if_neg ha.profile
  have hresidual : ¬ (d.configuration.profile = 5 ∧ p.metadata.header.coded.usesNlq = true) := by
    rintro ⟨hfive, huses⟩
    rw [Header.usesNlq_coded, ha.residual hfive] at huses
    cases huses
  have hreuse : ¬ (p.reuses = true ∧ (!d.compresses) = true) := by
    rintro ⟨hreuses, hoff⟩
    rw [Bool.not_eq_true', ha.compresses, bne_eq_false_iff_eq] at hoff
    rw [(hvalid.uncompressed hoff).1] at hreuses
    cases hreuses
  unfold checkProfile
  dsimp only
  rw [hprofile, if_neg hresidual]
  by_cases hcareful : strictness.isCareful = true
  · have hforbidden : ¬ (d.compresses = true ∧ d.configuration.profile < 8) := by
      rintro ⟨hon, hlow⟩
      exact UInt8.not_lt.2 (ha.careful hcareful hon) hlow
    rw [if_pos hcareful, if_neg hforbidden, if_neg hreuse]
  · rw [if_neg hcareful]

/-! ### The mapping -/

/-- The mapping, or the reference to one that is there, is read back. -/
theorem conveys_mapping (hvalid : p.Valid) (hslot : p.reuses = true → (d.slot p.id).isSome)
    (hput : p.putMapping w = .ok w') :
    Conveys size w w' (d.readMapping p.metadata.header.coded p.reuses) (d.receiveMapping p) := by
  obtain ⟨w₁, hid, hput⟩ := Checked.ok_of_bind hput
  unfold readMapping receiveMapping
  cases hreuses : p.reuses with
  | true =>
    rw [hreuses, if_pos rfl] at hput
    obtain rfl := Except.ok.inj hput
    refine (conveys_id hid).lift.bind ?_
    have hthere := hslot hreuses
    have hrefers : d.referredSlot p.id = p.id := if_pos hthere
    have hsome : ¬ (d.slot p.id).isNone = true := by
      rw [Option.isNone_iff_eq_none, ← Option.not_isSome_iff_eq_none, not_not]
      exact hthere
    rw [if_pos rfl, hrefers]
    dsimp only
    rw [if_neg hsome]
    exact Conveys.pure _
  | false =>
    rw [hreuses, if_neg Bool.false_ne_true] at hput
    have hread : Conveys size w₁ w'
        (Mapping.read p.metadata.header p.id.val p.metadata.header.usesNlq)
        (p.metadata.mapping.coded p.metadata.header) :=
      Mapping.conveys hvalid.header hvalid.mapping hvalid.id hput
    refine (conveys_id hid).lift.bind ?_
    rw [if_neg Bool.false_ne_true, if_neg Bool.false_ne_true]
    exact hread.lift.andThen fun mapping =>
      { d with active := some p.id, slots := d.slots.keep p.id mapping }

/-! ### Display management data -/

/-- The blocks of a group belong to it, and compressed data has no static ones. -/
theorem mem_sentBlocks {group : BlockGroup} {b : Block} (hb : b ∈ p.sentBlocks group) :
    b.group = group ∧ (p.compressed = true → b.isStatic = false) := by
  have hprop := (List.mem_filter.1 hb).2
  rw [Bool.and_eq_true, beq_iff_eq, Bool.not_eq_true', Bool.and_eq_false_iff] at hprop
  refine ⟨hprop.1, fun hcompressed => ?_⟩
  rcases hprop.2 with hfree | hdynamic
  · rw [hcompressed] at hfree
    cases hfree
  · exact hdynamic

/-- The static blocks of a group that are sent: none if the data is compressed. -/
theorem static_sentBlocks (hsorted : p.blocks.Sorted) (group : BlockGroup) :
    (p.sentBlocks group).filter Block.isStatic =
      if p.compressed then [] else p.blocks.static.filter fun b => b.group == group := by
  have hdynamic : p.blocks.dynamic.filter Block.isStatic = [] := by
    rw [List.filter_eq_nil_iff]
    intro b hb
    simp [hsorted.dynamic b hb]
  have hstatic : p.blocks.static.filter Block.isStatic = p.blocks.static :=
    List.filter_eq_self.2 hsorted.static
  unfold Plan.sentBlocks BlockSet.toList
  rw [List.filter_comm, List.filter_append, hstatic, hdynamic, List.append_nil]
  cases hcompressed : p.compressed with
  | true =>
    rw [if_pos rfl, List.filter_eq_nil_iff]
    intro b hb
    simp [hsorted.static b hb]
  | false =>
    rw [if_neg Bool.false_ne_true]
    simp

/-- The other blocks of a group are always sent. -/
theorem dynamic_sentBlocks (hsorted : p.blocks.Sorted) (group : BlockGroup) :
    (p.sentBlocks group).filter (fun b => !b.isStatic) =
      p.blocks.dynamic.filter fun b => b.group == group := by
  have hstatic : p.blocks.static.filter (fun b => !b.isStatic) = [] := by
    rw [List.filter_eq_nil_iff]
    intro b hb
    simp [hsorted.static b hb]
  have hdynamic : p.blocks.dynamic.filter (fun b => !b.isStatic) = p.blocks.dynamic := by
    rw [List.filter_eq_self]
    intro b hb
    simp [hsorted.dynamic b hb]
  unfold Plan.sentBlocks BlockSet.toList
  rw [List.filter_comm, List.filter_append, hstatic, hdynamic, List.nil_append]
  refine List.filter_congr fun b hb => ?_
  rw [hsorted.dynamic b hb, Bool.and_false, Bool.not_false, Bool.and_true]

theorem group_first (b : Block) : (b.group == BlockGroup.first) = !b.isCmV4 := by
  unfold Block.group
  cases b.isCmV4 <;> rfl

theorem group_second (b : Block) : (b.group == BlockGroup.second) = b.isCmV4 := by
  unfold Block.group
  cases b.isCmV4 <;> rfl

theorem filter_map_coded {q : Block → Bool} (hq : ∀ b : Block, q b.coded = q b)
    (blocks : List Block) :
    (blocks.map Block.coded).filter q = (blocks.filter q).map Block.coded := by
  rw [List.filter_map]
  congr 1
  exact List.filter_congr fun b _ => hq b

/-- **A decoder gets the static blocks that it keeps or those of the RPU, and all other blocks of
the RPU.** -/
theorem receivedBlocks_eq (hsorted : p.blocks.Sorted) :
    d.receivedBlocks p =
      { static := if p.compressed then (d.keptBlocks p).static else p.blocks.coded.static
        dynamic := p.blocks.coded.dynamic } := by
  have hstatic (b : Block) : b.coded.isStatic = b.isStatic := Block.isStatic_coded b
  have hdynamic (b : Block) : (!b.coded.isStatic) = !b.isStatic := by rw [hstatic]
  simp only [receivedBlocks, BlockSet.append, filter_map_coded hstatic,
    filter_map_coded (q := fun b => !b.isStatic) hdynamic, static_sentBlocks hsorted,
    dynamic_sentBlocks hsorted, group_first, group_second]
  unfold keptBlocks BlockSet.coded BlockSet.sent
  cases p.compressed <;> simp

/-- The number that says whether a scene begins is read back. -/
theorem conveys_sceneRefresh {v : UInt8} (hput : w.putUnsignedCode v.toNat = .ok w') :
    Conveys size w w' readSceneRefresh v := by
  have hword := v.toNat_lt
  unfold readSceneRefresh
  refine (conveys_unsignedCode (byte_le_maxCode v) hput).bind (Conveys.guard (by omega) ?_)
  exact (Conveys.pure _).congr UInt8.ofNat_toNat

/-- The color description is read back, or taken over from the last one. -/
theorem conveys_sourceColor (hvalid : p.Valid) (hhas : p.hasColor = true)
    (hcolor : p.compressed = true → d.color.isSome) {id : Id}
    (hid : p.metadata.color.id.toNat = id.val) {w₁ : Writer}
    (hrefresh : w.putUnsignedCode p.metadata.color.sceneRefresh.toNat = .ok w₁)
    (hput : (if p.compressed then pure w₁ else w₁.putFields p.metadata.color.fields) = .ok w') :
    Conveys size w w' (d.readSourceColor p.compressed id) (d.receivedColor p) := by
  have hbyte : UInt8.ofNat id.val = p.metadata.color.id := by rw [← hid, UInt8.ofNat_toNat]
  unfold readSourceColor receivedColor
  cases hcompressed : p.compressed with
  | true =>
    obtain ⟨color, hkept⟩ := Option.isSome_iff_exists.1 (hcolor hcompressed)
    rw [if_pos hcompressed] at hput
    obtain rfl := Except.ok.inj hput
    dsimp only
    rw [if_pos rfl, if_pos rfl, hkept, hbyte]
    exact (conveys_sceneRefresh hrefresh).andThen fun sceneRefresh =>
      { color with id := p.metadata.color.id, sceneRefresh }
  | false =>
    rw [if_neg (by simp [hcompressed])] at hput
    dsimp only
    rw [if_neg Bool.false_ne_true, if_neg Bool.false_ne_true, hbyte]
    exact (conveys_sceneRefresh hrefresh).bind
      (SourceColor.conveys (hvalid.bitDepth hhas hcompressed) hput)

/-- The number of bits of an RPU whose part in front of the tail was written by `w`. -/
def rpuBits (w : Writer) : Nat :=
  w.written.length + padding w.written.length + 8 * Tail.size

theorem dvd_rpuBits (w : Writer) : 8 ∣ rpuBits w := by
  have h := dvd_add_padding w.written.length
  unfold rpuBits
  omega

/-- **The blocks of both groups are read back.**  What follows the first group tells whether there
is a second one: the tail of an RPU and the padding in front of it have less than 48 bits, and a
group with a block adds nine. -/
theorem conveys_blocks (hroom : (d.receivedBlocks p).WithinLimits)
    (hput : p.putBlocks w = .ok w') (hsize : size = rpuBits w') :
    Conveys size w w' (readBlocks p.compressed strictness (d.keptBlocks p))
      (d.receivedBlocks p) := by
  have hdvd : 8 ∣ size := hsize ▸ dvd_rpuBits w'
  have hpadding := padding_lt w'.written.length
  unfold Plan.putBlocks at hput
  obtain ⟨w₁, hfirst, hsecond⟩ := Checked.ok_of_bind hput
  have hread : Conveys size w w₁ (BlockGroup.first.read p.compressed strictness (d.keptBlocks p))
      ((d.keptBlocks p).append ((p.sentBlocks .first).map Block.coded)) :=
    BlockGroup.conveys hdvd (fun b hb => (mem_sentBlocks hb).1)
      (fun b hb => (mem_sentBlocks hb).2) hroom.of_append hfirst
  unfold readBlocks
  refine hread.bind (Decoder.conveys_bitsLeft.bind ?_)
  dsimp only at hsecond
  split at hsecond
  · case isTrue hempty =>
    obtain rfl := Except.ok.inj hsecond
    have hnone : p.sentBlocks .second = [] := List.isEmpty_iff.1 hempty
    have hleft : ¬ tailBits < size - w₁.written.length := by
      unfold tailBits
      unfold rpuBits Tail.size at hsize
      omega
    rw [if_neg hleft, receivedBlocks, hnone, List.map_nil, BlockSet.append_nil]
    exact Conveys.pure _
  · case isFalse hsome =>
    have hlength := BlockGroup.length_put_ge hsecond
    have hpos : 0 < (p.sentBlocks .second).length := by
      rw [List.isEmpty_iff] at hsome
      exact List.length_pos_iff.2 hsome
    have hleft : tailBits < size - w₁.written.length := by
      unfold tailBits
      unfold rpuBits Tail.size at hsize
      omega
    rw [if_pos hleft]
    exact BlockGroup.conveys hdvd (fun b hb => (mem_sentBlocks hb).1)
      (fun b hb => (mem_sentBlocks hb).2) hroom hsecond

/-- The writes of display management data: its identifier, twice, the rest of its color description
and its blocks. -/
theorem ok_putColor (hput : p.putColor w = .ok w') :
    ∃ w₁ w₂ w₃ w₄, w.putUnsignedCode p.metadata.color.id.toNat = .ok w₁ ∧
      w₁.putUnsignedCode p.metadata.color.id.toNat = .ok w₂ ∧
      w₂.putUnsignedCode p.metadata.color.sceneRefresh.toNat = .ok w₃ ∧
      (if p.compressed then pure w₃ else w₃.putFields p.metadata.color.fields) = .ok w₄ ∧
      p.putBlocks w₄ = .ok w' := by
  obtain ⟨w₁, hfirst, hput⟩ := Checked.ok_of_bind hput
  obtain ⟨w₂, hsecond, hput⟩ := Checked.ok_of_bind hput
  obtain ⟨w₃, hrefresh, hput⟩ := Checked.ok_of_bind hput
  obtain ⟨w₄, hcolor, hblocks⟩ := Checked.ok_of_bindIf hput
  exact ⟨w₁, w₂, w₃, w₄, hfirst, hsecond, hrefresh, hcolor, hblocks⟩

/-- Display management data whose identifiers and color description are written goes on with the
blocks. -/
theorem putColor_of_parts {w₁ w₂ w₃ w₄ : Writer}
    (hfirst : w.putUnsignedCode p.metadata.color.id.toNat = .ok w₁)
    (hsecond : w₁.putUnsignedCode p.metadata.color.id.toNat = .ok w₂)
    (hrefresh : w₂.putUnsignedCode p.metadata.color.sceneRefresh.toNat = .ok w₃)
    (hcolor : (if p.compressed then pure w₃ else w₃.putFields p.metadata.color.fields) = .ok w₄) :
    p.putColor w = p.putBlocks w₄ := by
  refine (Checked.bind_ok hfirst).trans ((Checked.bind_ok hsecond).trans ?_)
  exact (Checked.bind_ok hrefresh).trans (Checked.bindIf_ok hcolor)

/-- Display management data is read back. -/
theorem conveys_color (hvalid : p.Valid) (hhas : p.hasColor = true)
    (hcolor : p.compressed = true → d.color.isSome) (hroom : (d.receivedBlocks p).WithinLimits)
    (hput : p.putColor w = .ok w') (hsize : size = rpuBits w') :
    Conveys size w w' (d.readColor p.compressed strictness)
      { d with
        color := some (d.receivedColor p)
        view := .sent
        blocks := if (d.receivedBlocks p).isEmpty then none else some (d.receivedBlocks p) } := by
  have hid : p.metadata.color.id.toNat < maxId + 1 := Nat.lt_succ_of_le hvalid.colorId
  let id : Id := ⟨p.metadata.color.id.toNat, hid⟩
  obtain ⟨w₁, w₂, w₃, w₄, hfirst, hsecond, hrefresh, hfields, hblocks⟩ := ok_putColor hput
  have hfirst : w.putUnsignedCode id.val = .ok w₁ := hfirst
  have hsecond : w₁.putUnsignedCode id.val = .ok w₂ := hsecond
  unfold readColor
  refine (conveys_id hfirst).lift.bind ((conveys_id hsecond).lift.bind ?_)
  refine Conveys.guard (not_not.2 rfl) ?_
  refine (conveys_sourceColor hvalid hhas hcolor rfl hrefresh hfields).lift.bind ?_
  exact (conveys_blocks hroom hblocks hsize).andThen fun blocks =>
    { d with
      color := some (d.receivedColor p)
      view := .sent
      blocks := if blocks.isEmpty then none else some blocks }

/-! ### RPUs -/

/-- Reads what follows the flags of an RPU. -/
def readParts (d : Stream) (strictness : Strictness) (h : Header)
    (hasColor reuses compressed : Bool) : Decoder Stream := do
  d.checkProfile strictness h reuses
  let d ← d.readMapping h reuses
  let d ←
    if hasColor then d.readColor compressed strictness
    else pure { d with view := .assumed, blocks := none }
  return { d with header := h }

theorem readBody_eq (rpuType : UInt8) :
    d.readBody strictness rpuType = (do
      let h ← Header.read rpuType strictness
      let hasColor ← Reader.flag
      let reuses ← Reader.flag
      let compressed ← if d.compresses then liftM Reader.flag else pure false
      d.readParts strictness h hasColor reuses compressed) :=
  rfl

/-- The type of an RPU that is planned is the one that is read. -/
theorem lower_rpuType (hvalid : p.Valid) :
    lower8 6 p.metadata.header.rpuType = p.metadata.header.rpuType := by
  rw [hvalid.rpuType]
  rfl

/-- The writes of an RPU: its header, its flags, its mapping and, if there is any, display
management data. -/
theorem ok_put (hput : p.put w = .ok w') :
    ∃ w₁ w₂ w₃, p.metadata.header.put w = .ok w₁ ∧ p.putFlags w₁ = .ok w₂ ∧
      p.putMapping w₂ = .ok w₃ ∧
      (if p.hasColor then p.putColor w₃ else return w₃) = .ok w' := by
  obtain ⟨w₁, hheader, hput⟩ := Checked.ok_of_bind hput
  obtain ⟨w₂, hflags, hput⟩ := Checked.ok_of_bind hput
  obtain ⟨w₃, hmapping, hput⟩ := Checked.ok_of_bind hput
  exact ⟨w₁, w₂, w₃, hheader, hflags, hmapping, hput⟩

/-- An RPU whose header, flags and mapping are written goes on with display management data. -/
theorem put_of_parts {w₁ w₂ w₃ : Writer} (hheader : p.metadata.header.put w = .ok w₁)
    (hflags : p.putFlags w₁ = .ok w₂) (hmapping : p.putMapping w₂ = .ok w₃) :
    p.put w = if p.hasColor then p.putColor w₃ else return w₃ :=
  (Checked.bind_ok hheader).trans ((Checked.bind_ok hflags).trans (Checked.bind_ok hmapping))

/-- An RPU is read back if what follows its flags is. -/
theorem conveys_front {d' : Stream} {w₁ w₂ : Writer} (hvalid : p.Valid)
    (hcompresses : d.compresses = (p.configured != .none))
    (hheader : p.metadata.header.put w = .ok w₁) (hflags : p.putFlags w₁ = .ok w₂)
    (hparts : Conveys size w₂ w'
      (d.readParts strictness p.metadata.header.coded p.hasColor p.reuses p.compressed) d') :
    Conveys size w w' (d.readRpu strictness) d' := by
  obtain ⟨w₀, htype, hread⟩ : ∃ w₀, w.put 6 p.metadata.header.rpuType.toNat = .ok w₀ ∧
      Conveys size w₀ w₁ (Header.read p.metadata.header.rpuType strictness) _ :=
    Header.conveys hvalid.header hheader
  obtain ⟨w₁₁, hhasColor, hflags⟩ := Checked.ok_of_bind hflags
  obtain ⟨w₁₂, hreuses, hflags⟩ := Checked.ok_of_bind hflags
  unfold readRpu
  refine (conveys_u8 (by decide) htype).lift.bind ?_
  rw [lower_rpuType hvalid, if_pos hvalid.rpuType, readBody_eq]
  refine hread.lift.bind ?_
  refine (conveys_flag hhasColor).lift.bind ((conveys_flag hreuses).lift.bind ?_)
  exact (conveys_compressed hvalid hcompresses hflags).bindIf hparts

/-- An RPU is refused if what follows its flags is. -/
theorem refuses_front {fault : Fault} {w₁ w₂ : Writer} (hvalid : p.Valid)
    (hcompresses : d.compresses = (p.configured != .none))
    (hheader : p.metadata.header.put w = .ok w₁) (hflags : p.putFlags w₁ = .ok w₂)
    (hparts : Refuses size w₂ w'
      (d.readParts strictness p.metadata.header.coded p.hasColor p.reuses p.compressed) fault) :
    Refuses size w w' (d.readRpu strictness) fault := by
  obtain ⟨w₀, htype, hread⟩ : ∃ w₀, w.put 6 p.metadata.header.rpuType.toNat = .ok w₀ ∧
      Conveys size w₀ w₁ (Header.read p.metadata.header.rpuType strictness) _ :=
    Header.conveys hvalid.header hheader
  obtain ⟨w₁₁, hhasColor, hflags⟩ := Checked.ok_of_bind hflags
  obtain ⟨w₁₂, hreuses, hflags⟩ := Checked.ok_of_bind hflags
  unfold readRpu
  refine Refuses.bind (conveys_u8 (by decide) htype).lift ?_
  rw [lower_rpuType hvalid, if_pos hvalid.rpuType, readBody_eq]
  refine Refuses.bind hread.lift ?_
  refine Refuses.bind (conveys_flag hhasColor).lift ?_
  refine Refuses.bind (conveys_flag hreuses).lift ?_
  exact Refuses.bindIf (conveys_compressed hvalid hcompresses hflags) hparts

/-- **A decoder that accepts an RPU comes into the state that it describes.** -/
theorem conveys_rpu (hvalid : p.Valid) (ha : d.Accepts p strictness) (hput : p.put w = .ok w')
    (hsize : size = rpuBits w') : Conveys size w w' (d.readRpu strictness) (d.receive p) := by
  obtain ⟨w₁, w₂, w₃, hheader, hflags, hmapping, hput⟩ := ok_put hput
  refine conveys_front hvalid ha.compresses hheader hflags ?_
  unfold readParts
  -- The profile is kept, the mapping is there, and so is what display management data refers to.
  rw [checkProfile_eq hvalid ha.toPermits, pure_bind]
  refine (conveys_mapping hvalid ha.slot hmapping).bind ?_
  cases hhas : p.hasColor with
  | true =>
    rw [hhas, if_pos rfl] at hput
    have hread : Conveys size w₃ w' ((d.receiveMapping p).readColor p.compressed strictness) _ :=
      conveys_color hvalid hhas ha.color (ha.room hhas) hput hsize
    rw [if_pos rfl]
    refine hread.bind ((Conveys.pure _).congr ?_)
    rw [receive, hhas, if_pos rfl, if_pos rfl, if_pos rfl]
    rfl
  | false =>
    rw [hhas, if_neg Bool.false_ne_true] at hput
    obtain rfl := Except.ok.inj hput
    rw [if_neg Bool.false_ne_true]
    refine (Conveys.pure _).congr ?_
    rw [receive, hhas, if_neg Bool.false_ne_true, if_neg Bool.false_ne_true,
      if_neg Bool.false_ne_true]
    rfl

/-! ### What is refused -/

/-- There is room for the blocks of a plan next to static blocks within their limit. -/
theorem receivedBlocks_withinLimits (hvalid : p.Valid)
    (hkept : (d.keptBlocks p).static.length ≤ BlockSet.maxStatic) :
    (d.receivedBlocks p).WithinLimits := by
  have hcoded := hvalid.limits.coded
  rw [receivedBlocks_eq hvalid.sorted]
  constructor
  · dsimp only
    split
    · exact hkept
    · exact hcoded.static_le
  · exact hcoded.dynamic_le

/-- A writer goes on from where it was, whatever is there to refer to. -/
theorem putMapping_start (hvalid : p.Valid) (hput : p.putMapping w = .ok w') :
    w.written <+: w'.written := by
  have hslot (mapping : Mapping) (id : Id) :
      (({ slots := Vector.replicate _ (some mapping) } : Stream).slot id).isSome := by
    simp [slot]
  have hconveys : Conveys 0 w w'
      (({ slots := Vector.replicate _ (some p.metadata.mapping) } : Stream).readMapping
        p.metadata.header.coded p.reuses) _ :=
    conveys_mapping hvalid (fun _ => hslot _ _) hput
  exact hconveys.start

/-- A color description and blocks follow the identifiers of display management data. -/
theorem putColor_start {w₁ w₂ : Writer} (hvalid : p.Valid) (hhas : p.hasColor = true)
    (hrefresh : w.putUnsignedCode p.metadata.color.sceneRefresh.toNat = .ok w₁)
    (hcolor : (if p.compressed then pure w₁ else w₁.putFields p.metadata.color.fields) = .ok w₂)
    (hblocks : p.putBlocks w₂ = .ok w') : w.written <+: w'.written := by
  have hid : p.metadata.color.id.toNat < maxId + 1 := Nat.lt_succ_of_le hvalid.colorId
  have hroom : (({ color := some {} } : Stream).receivedBlocks p).WithinLimits := by
    refine receivedBlocks_withinLimits hvalid ?_
    unfold keptBlocks
    split <;> exact Nat.zero_le _
  let d : Stream := { color := some {} }
  have hread : Conveys (rpuBits w') w₂ w' (readBlocks p.compressed .none (d.keptBlocks p)) _ :=
    conveys_blocks hroom hblocks rfl
  have hsource : Conveys (rpuBits w') w w₂ (d.readSourceColor p.compressed
      ⟨p.metadata.color.id.toNat, hid⟩) _ :=
    conveys_sourceColor hvalid hhas (fun _ => rfl) rfl hrefresh hcolor
  exact hsource.start.trans hread.start

/-- The flags of an RPU are followed by its mapping and, if there is any, by display management
data. -/
theorem putFlags_start (hvalid : p.Valid) {w₁ w₂ : Writer} (hmapping : p.putMapping w₁ = .ok w₂)
    (hput : (if p.hasColor then p.putColor w₂ else return w₂) = .ok w') :
    w₁.written <+: w'.written := by
  refine (putMapping_start hvalid hmapping).trans ?_
  split at hput
  · case isTrue hhas =>
    obtain ⟨w₃, w₄, w₅, w₆, hfirst, hsecond, hrefresh, hcolor, hblocks⟩ := ok_putColor hput
    refine List.IsPrefix.trans ?_ (putColor_start hvalid hhas hrefresh hcolor hblocks)
    rw [Writer.written_of_putUnsignedCode hsecond, Writer.written_of_putUnsignedCode hfirst,
      List.append_assoc]
    exact List.prefix_append ..
  · obtain rfl := Except.ok.inj hput
    exact List.prefix_refl _

/-- **An RPU of profile 5 with a residual is refused**, whatever else it holds. -/
theorem refuses_residual (hvalid : p.Valid) (hfive : d.configuration.profile = 5)
    (huses : p.metadata.header.usesNlq = true)
    (hcompresses : d.compresses = (p.configured != .none)) (hput : p.put w = .ok w') :
    Refuses size w w' (d.readRpu strictness) (.malformed .residualInProfile5) := by
  have hprofile : d.profileFor p.metadata.header.coded = 5 := by
    rw [profileFor, hfive]
    rfl
  obtain ⟨w₁, w₂, w₃, hheader, hflags, hmapping, hput⟩ := ok_put hput
  have hstart := putFlags_start hvalid hmapping hput
  -- The profile is checked behind the flags, in front of everything that may not be there.
  have hthrows : ∀ s, ∃ s', d.checkProfile strictness p.metadata.header.coded p.reuses s =
      .error (.malformed .residualInProfile5) s' := by
    intro s
    unfold checkProfile
    dsimp only
    rw [hprofile, if_pos ⟨rfl, huses⟩]
    exact ⟨_, rfl⟩
  refine refuses_front hvalid hcompresses hheader hflags ?_
  exact Refuses.first (Refuses.ofThrow hthrows hstart)

/-- Without a color description, compressed data is refused at its start. -/
theorem refuses_sourceColor {id : Id} (hcompressed : p.compressed = true) (hnone : d.color = none)
    (hstart : w.written <+: w'.written) :
    Refuses size w w' (liftM (d.readSourceColor p.compressed id) : Decoder SourceColor)
      (.malformed .compressedWithoutPrevious) := by
  refine Refuses.ofThrow (fun s => ?_) hstart
  unfold readSourceColor
  dsimp only
  rw [if_pos hcompressed, hnone]
  exact ⟨_, rfl⟩

/-- **Compressed data is refused if there was no color description before it.** -/
theorem refuses_color (hvalid : p.Valid) (hpermits : d.Permits p strictness)
    (hslot : p.reuses = true → (d.slot p.id).isSome) (hcompressed : p.compressed = true)
    (hnone : d.color = none) (hput : p.put w = .ok w') :
    Refuses size w w' (d.readRpu strictness) (.malformed .compressedWithoutPrevious) := by
  have hhas := hvalid.hasColor hcompressed
  have hid : p.metadata.color.id.toNat < maxId + 1 := Nat.lt_succ_of_le hvalid.colorId
  let id : Id := ⟨p.metadata.color.id.toNat, hid⟩
  obtain ⟨w₁, w₂, w₃, hheader, hflags, hmapping, hput⟩ := ok_put hput
  rw [if_pos hhas] at hput
  obtain ⟨w₄, w₅, w₆, w₇, hfirst, hsecond, hrefresh, hcolor, hblocks⟩ := ok_putColor hput
  have hfirst : w₃.putUnsignedCode id.val = .ok w₄ := hfirst
  have hsecond : w₄.putUnsignedCode id.val = .ok w₅ := hsecond
  have hstart := putColor_start hvalid hhas hrefresh hcolor hblocks
  refine refuses_front hvalid hpermits.compresses hheader hflags ?_
  unfold readParts
  rw [checkProfile_eq hvalid hpermits, pure_bind]
  -- The mapping is read, and so are the identifiers in front of the missing description.
  refine Refuses.bind (conveys_mapping hvalid hslot hmapping) ?_
  rw [if_pos hhas]
  refine Refuses.first ?_
  unfold readColor
  refine Refuses.bind (conveys_id hfirst).lift (Refuses.bind (conveys_id hsecond).lift ?_)
  rw [if_neg (not_not.2 rfl)]
  exact Refuses.first (refuses_sourceColor hcompressed hnone hstart)

end Stream

end DolbyVision
