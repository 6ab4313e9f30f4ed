/-
**What an encoder and a decoder share.**

An encoder refers to what it has sent.  A decoder that has the same mappings, and the same color
description and static blocks, accepts what the encoder plans, and shares them again afterwards.
The two parts are kept apart, since a decoder may have the one and not yet the other.

Main definitions:

* `DolbyVision.Metadata.IsCanonical` — metadata of which an RPU loses nothing;
* `DolbyVision.Stream.SharesMappings` — a decoder has the mappings of an encoder;
* `DolbyVision.Stream.SharesColor` — it has the color description and the static blocks.

Main results:

* `DolbyVision.Stream.SharesMappings.next`, `DolbyVision.Stream.SharesColor.next` — **they are
  shared again after an RPU**;
* `DolbyVision.Stream.accepts_of_shares` — a decoder that shares what an RPU refers to accepts it;
* `DolbyVision.Stream.metadata_commit`, `DolbyVision.Stream.metadata_receive` — **both sides export
  the metadata that was sent**.
-/

import DolbyVision.Proofs.Stream.Received

set_option relaxedAutoImplicit false
set_option autoImplicit false

namespace DolbyVision

/-! ### Canonical metadata -/

/-- Metadata of which an RPU loses nothing: fixed-point coefficients, fields that fit in their bits,
nothing that is not coded, and blocks in the order in which they are sent. -/
structure Metadata.IsCanonical (m : Metadata) : Prop where
  coefficientType : m.header.coefficientType = Header.fixedPoint
  header : m.header.Fits
  mapping : m.mapping.IsCanonical
  color : m.color.Fits
  blocks : ∀ b ∈ m.blocks, b.Fits
  order : InSendingOrder m.blocks

/-- The mapping that leaves every component of a base layer of ten bits as it is. -/
def Mapping.identity : Mapping where
  curves := Vector.replicate 3 {
    pivots := [0, 1023]
    pieces := [.polynomial 1 #v[0, 8388608, 0]] }
  partitionsX := 1
  partitionsY := 1

/-- Metadata that leaves a base layer of ten bits as it is, with the assumed color description. -/
def Metadata.identity : Metadata where
  header := {
    rpuType := 2
    rpuProfile := 1
    coefficientLog2Denominator := 23
    baseLayerBitDepth := 10
    enhancementLayerBitDepth := 10
    outputBitDepth := 12
    disableResidual := true }
  mapping := .identity
  color := .assumed

theorem Metadata.isCanonical_identity {color : SourceColor} {blocks : List Block}
    (hcolor : color.Fits) (hblocks : ∀ b ∈ blocks, b.Fits) (horder : InSendingOrder blocks) :
    { Metadata.identity with color, blocks }.IsCanonical where
  coefficientType := rfl
  header := by
    have hheader : Metadata.identity.header.Fits :=
      ⟨by decide, by decide, by decide, by decide, by decide⟩
    exact hheader
  mapping := by
    refine ⟨?_, fun _ => rfl, fun _ => rfl⟩
    intro c hc piece hpiece
    rw [List.eq_of_mem_replicate hc] at hpiece
    rw [List.mem_singleton.1 hpiece]
    exact Or.inr rfl
  color := hcolor
  blocks := hblocks
  order := horder

namespace Stream

variable {e d : Stream} {m : Metadata} {options : EncodeOptions} {p : Plan}
  {strictness : Strictness}

/-! ### References of a plan -/

/-- A mapping is referred to only if it is in its slot. -/
theorem Plans.slot (hplans : e.Plans m options p) (hreuses : p.reuses = true) :
    e.slot p.id = some m.mapping := by
  rw [hplans.reuses] at hreuses
  unfold reusesMapping at hreuses
  split at hreuses
  · rw [Bool.and_eq_true] at hreuses
    exact beq_iff_eq.1 hreuses.2
  · exact beq_iff_eq.1 hreuses
  · cases hreuses

/-- A color description and static blocks are left out only if they were the last ones. -/
theorem Plans.last (hplans : e.Plans m options p) (hcompressed : p.compressed = true) :
    (∃ c, e.color = some c ∧
      { c with id := m.color.id, sceneRefresh := m.color.sceneRefresh } = m.color) ∧
      (e.blocks.map BlockSet.static).getD [] = p.blocks.static := by
  rw [hplans.compressed, Bool.and_eq_true] at hcompressed
  have hrepeats := hcompressed.2
  rw [repeatsColor, Bool.and_eq_true, beq_iff_eq, Option.any_eq_true] at hrepeats
  obtain ⟨⟨c, hcolor, hsame⟩, hstatic⟩ := hrepeats
  exact ⟨⟨c, hcolor, beq_iff_eq.1 hsame⟩, hstatic⟩

/-- Without display management data, the description is the assumed one and there are no blocks. -/
theorem Plans.assumed (hplans : e.Plans m options p) (hhas : p.hasColor = false) :
    m.color = .assumed ∧ p.blocks.toList = [] := by
  rw [hplans.hasColor, Bool.or_eq_false_iff, bne_eq_false_iff_eq, Bool.not_eq_false'] at hhas
  refine ⟨hhas.1, ?_⟩
  have hempty := hhas.2
  rw [BlockSet.isEmpty, Bool.and_eq_true, List.isEmpty_iff, List.isEmpty_iff] at hempty
  rw [BlockSet.toList, hempty.1, hempty.2, List.append_nil]

/-- The blocks of canonical metadata are listed as they came. -/
theorem Plans.toList_blocks (hplans : e.Plans m options p) (hcanonical : m.IsCanonical) :
    p.blocks.toList = m.blocks := by
  rw [hplans.valid.blocks, hplans.metadata]
  exact BlockSet.toList_of_inSendingOrder hcanonical.order

theorem Plans.coded_blocks (hplans : e.Plans m options p) (hcanonical : m.IsCanonical) :
    p.blocks.coded = p.blocks := by
  rw [hplans.valid.blocks, hplans.metadata]
  exact BlockSet.coded_eq_self hcanonical.order hcanonical.blocks

theorem Plans.coded_mapping (hplans : e.Plans m options p) (hcanonical : m.IsCanonical) :
    p.metadata.mapping.coded p.metadata.header = m.mapping := by
  rw [hplans.metadata]
  exact Mapping.coded_eq_self hcanonical.coefficientType hcanonical.mapping

/-! ### What is shared -/

/-- A decoder has the configuration of an encoder and the mappings to which it may refer. -/
structure SharesMappings (d e : Stream) : Prop where
  configuration : d.configuration = e.configuration
  slots : ∀ id m, e.slot id = some m → d.slot id = some m

/-- A decoder has the color description to which an encoder may refer, and its static blocks. -/
structure SharesColor (d e : Stream) : Prop where
  color : ∀ c, e.color = some c → d.color = some c
  static : e.color.isSome →
    (d.blocks.map BlockSet.static).getD [] = (e.blocks.map BlockSet.static).getD []

/-- Slots of which one was replaced have the others as they were. -/
theorem get_set (slots : Slots) (id id' : Id) (x : Option Mapping) :
    getElem (slots.set id x id.isLt : Slots) id' id'.isLt =
      if id = id' then x else getElem slots id' id'.isLt := by
  simp [Fin.ext_iff, Vector.getElem_set]

theorem get_keep (slots : Slots) (id id' : Id) (mapping : Mapping) :
    getElem (slots.keep id mapping) id' id'.isLt =
      if id = id' then some mapping else getElem slots id' id'.isLt :=
  get_set slots id id' (some mapping)

theorem get_empty (id : Id) : getElem Slots.empty id id.isLt = none := by
  simp [Slots.empty]

/-- Any decoder shares the mappings of an encoder that has forgotten what it has sent. -/
theorem sharesMappings_flush (hsame : d.configuration = e.configuration) :
    d.SharesMappings e.flush where
  configuration := hsame
  slots := by
    intro id mapping hslot
    have hempty : e.flush.slot id = none := get_empty id
    rw [hempty] at hslot
    cases hslot

/-- The same of the color description. -/
theorem sharesColor_flush : d.SharesColor e.flush where
  color := by
    intro c hlast
    cases hlast
  static := by
    intro hlast
    cases hlast

/-- The color description that a decoder gets is the one that was sent. -/
theorem receivedColor_eq (hplans : e.Plans m options p) (hcanonical : m.IsCanonical)
    (hcolor : p.compressed = true → d.SharesColor e) : d.receivedColor p = m.color := by
  unfold receivedColor
  rw [hplans.metadata]
  cases hcompressed : p.compressed with
  | true =>
    obtain ⟨⟨c, hlast, hsame⟩, -⟩ := hplans.last hcompressed
    rw [if_pos rfl, (hcolor hcompressed).color c hlast]
    exact hsame
  | false =>
    rw [if_neg Bool.false_ne_true]
    exact SourceColor.coded_eq_self hcanonical.color

/-- The static blocks that a decoder keeps are those that were left out. -/
theorem keptBlocks_static (hplans : e.Plans m options p) (hcompressed : p.compressed = true)
    (hcolor : d.SharesColor e) : (d.keptBlocks p).static = p.blocks.static := by
  obtain ⟨⟨c, hlast, -⟩, hstatic⟩ := hplans.last hcompressed
  unfold keptBlocks
  dsimp only
  rw [if_pos hcompressed, hcolor.static (by rw [hlast]; rfl), hstatic]

/-- The blocks that a decoder gets are those that were sent. -/
theorem receivedBlocks_eq_self (hplans : e.Plans m options p) (hcanonical : m.IsCanonical)
    (hcolor : p.compressed = true → d.SharesColor e) : d.receivedBlocks p = p.blocks := by
  rw [receivedBlocks_eq hplans.valid.sorted, hplans.coded_blocks hcanonical]
  cases hcompressed : p.compressed with
  | true => rw [if_pos rfl, keptBlocks_static hplans hcompressed (hcolor hcompressed)]
  | false => rw [if_neg Bool.false_ne_true]

/-- **A decoder that shares what an RPU refers to accepts it.** -/
theorem accepts_of_shares (hplans : e.Plans m options p) (hpermits : d.Permits p strictness)
    (hmappings : d.SharesMappings e) (hcolor : p.compressed = true → d.SharesColor e) :
    d.Accepts p strictness where
  toPermits := hpermits
  slot := by
    intro hreuses
    rw [hmappings.slots _ _ (hplans.slot hreuses)]
    rfl
  color := by
    intro hcompressed
    obtain ⟨⟨c, hlast, -⟩, -⟩ := hplans.last hcompressed
    rw [(hcolor hcompressed).color c hlast]
    rfl
  room := by
    intro _
    refine receivedBlocks_withinLimits hplans.valid ?_
    cases hcompressed : p.compressed with
    | true =>
      rw [keptBlocks_static hplans hcompressed (hcolor hcompressed)]
      exact hplans.valid.limits.static_le
    | false =>
      unfold keptBlocks
      rw [hcompressed]
      exact Nat.zero_le _

/-! ### After an RPU -/

/-- The state of an encoder after an RPU, field by field. -/
theorem commit_eq :
    e.commit p =
      { e with
        header := p.metadata.header
        active := some p.id
        slots := e.slotsAfter p
        color := if p.hasColor then some p.metadata.color else e.color
        view := if p.hasColor then .sent else .assumed
        blocks :=
          if p.hasColor then if p.blocks.isEmpty then none else some p.blocks else none } := by
  unfold commit
  cases p.hasColor <;> rfl

/-- An encoder has the mapping that it has sent or referred to. -/
theorem slot_commit_self (hplans : e.Plans m options p) :
    (e.commit p).slot p.id = some m.mapping := by
  have hsent : (if p.reuses then e.slots else e.slots.keep p.id p.metadata.mapping)[p.id] =
      some m.mapping := by
    cases hreuses : p.reuses with
    | true =>
      rw [if_pos rfl]
      exact hplans.slot hreuses
    | false => rw [if_neg Bool.false_ne_true, get_keep, if_pos rfl, hplans.metadata]
  unfold slot
  rw [commit_eq]
  unfold slotsAfter
  dsimp only
  split
  · exact hsent
  · rw [get_set, if_pos rfl, hsent]

/-- What else an encoder has was there before. -/
theorem slot_commit_of_ne {id : Id} {mapping : Mapping} (hne : id ≠ p.id)
    (hslot : (e.commit p).slot id = some mapping) : e.slot id = some mapping := by
  have hsent : (if p.reuses then e.slots else e.slots.keep p.id p.metadata.mapping)[id] =
      e.slot id := by
    cases p.reuses with
    | true => rfl
    | false => rw [if_neg Bool.false_ne_true, get_keep, if_neg hne.symm]; rfl
  unfold slot at hslot
  rw [commit_eq] at hslot
  unfold slotsAfter at hslot
  dsimp only at hslot
  split at hslot
  · rwa [hsent] at hslot
  · rw [get_set, if_neg hne.symm, get_empty] at hslot
    cases hslot

/-- A decoder has the mapping that was sent or referred to. -/
theorem slot_receive_self (hplans : e.Plans m options p) (hcanonical : m.IsCanonical)
    (hmappings : d.SharesMappings e) : (d.receive p).slot p.id = some m.mapping := by
  unfold slot receive receiveMapping
  dsimp only
  cases hreuses : p.reuses with
  | true =>
    rw [if_pos rfl]
    exact hmappings.slots _ _ (hplans.slot hreuses)
  | false =>
    rw [if_neg Bool.false_ne_true, get_keep, if_pos rfl, hplans.coded_mapping hcanonical]

/-- The other mappings of a decoder stay. -/
theorem slot_receive_of_ne {id : Id} (hne : id ≠ p.id) : (d.receive p).slot id = d.slot id := by
  unfold slot receive receiveMapping
  dsimp only
  split
  · rfl
  · rw [get_keep, if_neg hne.symm]

/-- **Mappings are shared again after an RPU.** -/
theorem SharesMappings.next (hmappings : d.SharesMappings e) (hplans : e.Plans m options p)
    (hcanonical : m.IsCanonical) : (d.receive p).SharesMappings (e.commit p) where
  configuration := by
    rw [commit_eq]
    exact hmappings.configuration
  slots := by
    intro id mapping hslot
    -- The slot of the RPU has its mapping at both ends; the encoder may only have less elsewhere.
    by_cases hid : id = p.id
    · rw [hid, slot_commit_self hplans] at hslot
      rw [hid, slot_receive_self hplans hcanonical hmappings, hslot]
    · rw [slot_receive_of_ne hid]
      exact hmappings.slots _ _ (slot_commit_of_ne hid hslot)

/-- **The color description is shared again after an RPU** that has one, and stays shared after one
that has none. -/
theorem SharesColor.next (hplans : e.Plans m options p) (hcanonical : m.IsCanonical)
    (hcolor : p.compressed = true → d.SharesColor e)
    (hkept : p.hasColor = false → d.SharesColor e) : (d.receive p).SharesColor (e.commit p) := by
  -- Both ends replace the blocks with those of the RPU; only the description may stay.
  rw [commit_eq, receive, receivedBlocks_eq_self hplans hcanonical hcolor,
    receivedColor_eq hplans hcanonical hcolor, hplans.metadata]
  refine ⟨?_, fun _ => rfl⟩
  dsimp only
  cases hhas : p.hasColor with
  | true => exact fun _ hlast => hlast
  | false => exact (hkept hhas).color

/-! ### What is exported -/

/-- The metadata of a stream in which the mapping and the color description of `m` hold. -/
theorem metadata_eq {s : Stream} (hheader : s.header = m.header)
    (hmapping : s.activeMapping = some m.mapping) (hcolor : s.activeColor = some m.color)
    (hblocks : (s.blocks.map BlockSet.toList).getD [] = m.blocks) : s.metadata = some m := by
  unfold metadata
  rw [hmapping, hcolor, hheader, hblocks]
  rfl

/-- A set of blocks is listed as it is, whether an empty one is kept or not. -/
theorem toList_kept (blocks : BlockSet) :
    ((if blocks.isEmpty then none else some blocks).map BlockSet.toList).getD [] =
      blocks.toList := by
  cases hempty : blocks.isEmpty with
  | true =>
    rw [BlockSet.isEmpty, Bool.and_eq_true, List.isEmpty_iff, List.isEmpty_iff] at hempty
    rw [if_pos rfl, BlockSet.toList, hempty.1, hempty.2]
    rfl
  | false =>
    rw [if_neg Bool.false_ne_true]
    rfl

/-- The blocks that either side keeps of an RPU are those that were sent. -/
theorem Plans.toList_kept (hplans : e.Plans m options p) (hcanonical : m.IsCanonical) :
    ((if p.hasColor then if p.blocks.isEmpty then none else some p.blocks else none).map
      BlockSet.toList).getD [] = m.blocks := by
  rw [← hplans.toList_blocks hcanonical]
  cases hhas : p.hasColor with
  | true =>
    rw [if_pos rfl]
    exact Stream.toList_kept p.blocks
  | false => exact (hplans.assumed hhas).2.symm

/-- **An encoder exports the metadata that it has sent.** -/
theorem metadata_commit (hplans : e.Plans m options p) (hcanonical : m.IsCanonical) :
    (e.commit p).metadata = some m := by
  have hslot := slot_commit_self hplans
  rw [commit_eq] at hslot ⊢
  refine metadata_eq (congrArg Metadata.header hplans.metadata) hslot ?_
    (hplans.toList_kept hcanonical)
  unfold activeColor
  cases hhas : p.hasColor with
  | true => exact congrArg (fun m => some m.color) hplans.metadata
  | false => exact congrArg some (hplans.assumed hhas).1.symm

/-- **A decoder exports the metadata that was sent**, if it shares what the RPU refers to. -/
theorem metadata_receive (hplans : e.Plans m options p) (hcanonical : m.IsCanonical)
    (hmappings : d.SharesMappings e) (hcolor : p.compressed = true → d.SharesColor e) :
    (d.receive p).metadata = some m := by
  have hslot := slot_receive_self hplans hcanonical hmappings
  have hheader : p.metadata.header.coded = m.header := by
    rw [hplans.metadata]
    exact Header.coded_eq_self hcanonical.header
  rw [receive, receivedBlocks_eq_self hplans hcanonical hcolor,
    receivedColor_eq hplans hcanonical hcolor] at hslot ⊢
  refine metadata_eq hheader hslot ?_ (hplans.toList_kept hcanonical)
  unfold activeColor
  cases hhas : p.hasColor with
  | true => rfl
  | false => exact congrArg some (hplans.assumed hhas).1.symm

end Stream

end DolbyVision
