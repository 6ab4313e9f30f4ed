/-
**What holds of a stream between two RPUs.**

Decoding, encoding and configuring each touch some of the fields of a stream, and what the fields
say of each other has to stay true: the active mapping is in its slot, mappings and blocks are well
formed, and a stream that has a mapping also has a view of its color (`Stream.Invariant`).  The part
about mappings and the part about colors are kept apart, since an RPU is read in that order.

Main definitions:

* `DolbyVision.Stream.KeepsMappings`, `DolbyVision.Stream.KeepsColor` — the two parts;
* `DolbyVision.Stream.Invariant` — what holds between two RPUs;
* `DolbyVision.Stream.Exports` — what is known of exported metadata;
* `DolbyVision.LabelledStream.Reachable` — the streams that operations lead to from an empty one.

Main results:

* `DolbyVision.Stream.Invariant.decode`, `DolbyVision.Stream.Invariant.encode` — **an RPU keeps the
  invariant**, whether it is accepted or not;
* `DolbyVision.Stream.Invariant.isSome_metadata`, `DolbyVision.Stream.Invariant.exports` — when
  metadata is exported, and what is known of it;
* `DolbyVision.LabelledStream.coherent_of_reachable` — **the invariant holds of every reachable
  stream**, and what it exports is well formed.
-/

import DolbyVision.Proofs.Rpu.WellFormed
import DolbyVision.Proofs.Stream.Shared
import DolbyVision.Stream.Configure

set_option relaxedAutoImplicit false
set_option autoImplicit false

namespace DolbyVision

open Bits

namespace Stream

/-! ### The invariant -/

/-- The active mapping is in its slot, and the mappings in slots are well formed. -/
structure KeepsMappings (s : Stream) : Prop where
  active : ∀ id, s.active = some id → (s.slot id).isSome
  slots : ∀ id m, s.slot id = some m → m.IsWellFormed id.val

/-- A color description that holds is there, and so are blocks only where one was sent; both are
well formed, and an empty set of blocks is not kept. -/
structure KeepsColor (s : Stream) : Prop where
  sent : s.view = .sent → s.color.isSome
  color : ∀ c, s.color = some c → c.IsWellFormed
  blocks : ∀ blocks, s.blocks = some blocks → blocks.isEmpty = false ∧ blocks.IsWellFormed
  unsent : s.view ≠ .sent → s.blocks = none

/-- What holds of a stream between two RPUs. -/
structure Invariant (s : Stream) : Prop extends KeepsMappings s, KeepsColor s where
  /-- A mapping and a color description hold together. -/
  views : s.active.isSome ↔ s.view ≠ .unknown
  header : s.active.isSome → s.header.rpuType = knownRpuType
  /-- Before the first RPU nothing is remembered. -/
  flushed : s.active = none → s = s.flush

variable {s s' : Stream} {strictness : Strictness}

/-- The first part is about the active slot and the mappings only. -/
theorem KeepsMappings.of_eq (hs : s.KeepsMappings) (hactive : s'.active = s.active)
    (hslots : s'.slots = s.slots) : s'.KeepsMappings where
  active := by
    intro id hid
    rw [hactive] at hid
    unfold slot
    rw [hslots]
    exact hs.active id hid
  slots := by
    intro id m hslot
    unfold slot at hslot
    rw [hslots] at hslot
    exact hs.slots id m hslot

/-- The second part is about the color description and the blocks only. -/
theorem KeepsColor.of_eq (hs : s.KeepsColor) (hview : s'.view = s.view)
    (hcolor : s'.color = s.color) (hblocks : s'.blocks = s.blocks) : s'.KeepsColor where
  sent := by
    rw [hview, hcolor]
    exact hs.sent
  color := by
    rw [hcolor]
    exact hs.color
  blocks := by
    rw [hblocks]
    exact hs.blocks
  unsent := by
    rw [hview, hblocks]
    exact hs.unsent

theorem invariant_flush (s : Stream) : s.flush.Invariant where
  active := fun _ hactive => nomatch hactive
  slots := by
    intro id m hslot
    have hempty : s.flush.slot id = none := get_empty id
    rw [hempty] at hslot
    cases hslot
  sent := fun hview => nomatch hview
  color := fun _ hcolor => nomatch hcolor
  blocks := fun _ hblocks => nomatch hblocks
  unsent := fun _ => rfl
  views := ⟨fun hactive => (nomatch hactive), fun hview => absurd rfl hview⟩
  header := fun hactive => nomatch hactive
  flushed := fun _ => rfl

/-- What is kept of display management data. -/
theorem keepsColor_sent {color : SourceColor} {blocks : BlockSet} (hcolor : color.IsWellFormed)
    (hblocks : blocks.IsWellFormed) :
    KeepsColor { s with
      color := some color
      view := .sent
      blocks := if blocks.isEmpty then none else some blocks } where
  sent := fun _ => rfl
  color := by
    intro c hc
    rw [← Option.some.inj hc]
    exact hcolor
  blocks := by
    intro kept hkept
    dsimp only at hkept
    split at hkept
    · cases hkept
    · case isFalse hempty =>
      rw [← Option.some.inj hkept]
      exact ⟨Bool.eq_false_iff.2 hempty, hblocks⟩
  unsent := fun hview => absurd rfl hview

/-- Without display management data, the last color description is kept and the blocks are not. -/
theorem KeepsColor.assumed (hs : s.KeepsColor) :
    KeepsColor { s with view := .assumed, blocks := none } where
  sent := fun hview => nomatch hview
  color := hs.color
  blocks := fun _ hblocks => nomatch hblocks
  unsent := fun _ => rfl

/-- After an RPU the invariant holds if both parts of it do. -/
theorem invariant_of_keeps (hmappings : s.KeepsMappings) (hcolor : s.KeepsColor)
    (hactive : s.active.isSome) (hview : s.view ≠ .unknown)
    (hheader : s.header.rpuType = knownRpuType) : s.Invariant where
  toKeepsMappings := hmappings
  toKeepsColor := hcolor
  views := ⟨fun _ => hview, fun _ => hactive⟩
  header := fun _ => hheader
  flushed := by
    intro hnone
    rw [hnone] at hactive
    cases hactive

/-! ### Decoding -/

/-- After a mapping was read or referred to, it is the active one. -/
theorem gives_readMapping (hs : s.KeepsMappings) (h : Header) (reuses : Bool) :
    Run.Gives (s.readMapping h reuses) fun s' =>
      s'.KeepsMappings ∧ ∃ id slots, s' = { s with active := some id, slots } := by
  refine .after fun id => .ite (fun _ => ?_) fun _ => ?_
  · refine .ite (fun _ => .after fun _ => .stop) fun hthere => .pure ?_
    refine ⟨⟨?_, hs.slots⟩, s.referredSlot id, s.slots, rfl⟩
    intro active hactive
    obtain rfl := Option.some.inj hactive
    rw [Option.isNone_iff_eq_none, ← Option.not_isSome_iff_eq_none, not_not] at hthere
    exact hthere
  · refine .bind (Mapping.gives_read h (Nat.le_of_lt_succ id.isLt) _).lift fun m hm => .pure ?_
    refine ⟨⟨?_, ?_⟩, id, s.slots.keep id m, rfl⟩
    · intro active hactive
      obtain rfl := Option.some.inj hactive
      have hslot : (s.slots.keep id m)[id] = some m := by rw [get_keep, if_pos rfl]
      exact Option.isSome_iff_exists.2 ⟨m, hslot⟩
    · intro id' m' hslot
      have hkept : (s.slots.keep id m)[id'] = some m' := hslot
      rw [get_keep] at hkept
      split at hkept
      · case isTrue heq =>
        obtain rfl := Option.some.inj hkept
        rw [← heq]
        exact hm
      · exact hs.slots id' m' hkept

theorem gives_readSourceColor (hs : s.KeepsColor) (compressed : Bool) (id : Id) :
    Run.Gives (s.readSourceColor compressed id) SourceColor.IsWellFormed := by
  have hid : (UInt8.ofNat id.val).toNat ≤ maxId := by
    have hlt := id.isLt
    unfold maxId at hlt ⊢
    rw [UInt8.toNat_ofNat']
    omega
  refine .ite (fun _ => ?_) fun _ => ?_
  · cases hlast : s.color with
    | none => exact .throw
    | some c => exact .after fun _ => .pure ⟨hid, (hs.color c hlast).bitDepth⟩
  · exact .after fun _ => SourceColor.gives_read hid

theorem gives_readBlocks {compressed : Bool} {kept : BlockSet} (hkept : kept.IsWellFormed) :
    Run.Gives (readBlocks compressed strictness kept) BlockSet.IsWellFormed := by
  refine .bind (BlockGroup.gives_read hkept) fun _ hfirst => ?_
  refine .after fun _ => ?_
  exact .ite (fun _ => BlockGroup.gives_read hfirst) fun _ => .pure hfirst

/-- The static blocks of the last RPU are well formed. -/
theorem KeepsColor.static (hs : s.KeepsColor) :
    ({ static := (s.blocks.map BlockSet.static).getD [] } : BlockSet).IsWellFormed := by
  cases hblocks : s.blocks with
  | none => exact BlockSet.wellFormed_empty
  | some blocks => exact (hs.blocks blocks hblocks).2.static

/-- After display management data was read, the color description is the one that was sent. -/
theorem gives_readColor (hs : s.KeepsColor) (compressed : Bool) :
    Run.Gives (s.readColor compressed strictness) fun s' =>
      s'.KeepsColor ∧ ∃ color blocks, s' = { s with color, view := .sent, blocks } := by
  refine .after fun affected => .after fun current => .check fun _ => ?_
  refine .bind (gives_readSourceColor hs compressed affected).lift fun color hcolor => ?_
  refine .bind (gives_readBlocks ?_) fun blocks hblocks => .pure ⟨?_, _, _, rfl⟩
  · cases compressed with
    | true => exact hs.static
    | false => exact BlockSet.wellFormed_empty
  · exact keepsColor_sent hcolor hblocks

/-- An RPU that is accepted leaves a stream in which the invariant holds. -/
theorem gives_readBody (hs : s.Invariant) :
    Run.Gives (s.readBody strictness knownRpuType) Invariant := by
  refine .bind (Header.gives_read _ _).lift fun header hheader => ?_
  refine .after fun hasColor => .after fun reuses => .afterIf fun compressed => ?_
  refine .after fun _ => ?_
  -- The mapping may already be in its slot when a later part is refused; then all is flushed.
  refine .bind (gives_readMapping hs.toKeepsMappings header reuses) fun s' hs' => ?_
  obtain ⟨hmappings, id, slots, rfl⟩ := hs'
  -- A mapping that was read leaves the color description and the blocks as they were.
  have hkeeps : KeepsColor { s with active := some id, slots } :=
    hs.toKeepsColor.of_eq rfl rfl rfl
  refine .ite (fun _ => ?_) fun _ => ?_
  · refine .bind (gives_readColor hkeeps compressed) fun s'' hs'' => .pure ?_
    obtain ⟨hcolor, color, blocks, rfl⟩ := hs''
    exact invariant_of_keeps (hmappings.of_eq rfl rfl) (hcolor.of_eq rfl rfl rfl) rfl nofun hheader
  · refine .pure (invariant_of_keeps (hmappings.of_eq rfl rfl) ?_ rfl nofun hheader)
    exact hkeeps.assumed.of_eq rfl rfl rfl

theorem gives_readRpu (hs : s.Invariant) : Run.Gives (s.readRpu strictness) Invariant := by
  refine .after fun rpuType => .ite (fun htype => ?_) fun _ => .after fun _ => .pure hs
  rw [htype]
  exact gives_readBody hs

/-- **Decoding keeps the invariant**, whatever is decoded. -/
theorem Invariant.decode (hs : s.Invariant) (data : List UInt8) (strictness : Strictness) :
    (s.decode data strictness).state.Invariant := by
  unfold Stream.decode
  split
  · exact invariant_flush s
  · split
    · exact invariant_flush s
    · split
      · case h_1 hread => exact gives_readRpu hs _ _ _ hread
      · exact invariant_flush s

/-! ### Encoding -/

section Encoding

variable {m : Metadata} {options : EncodeOptions} {p : Plan} {rpu : List UInt8}

/-- A mapping that is in its slot, or was written, is well formed. -/
theorem Plans.mapping_wellFormed (hplans : s.Plans m options p) (hs : s.KeepsMappings)
    (hrpu : p.rpu = .ok rpu) : m.mapping.IsWellFormed p.id.val := by
  obtain ⟨w, hput, -⟩ := Checked.ok_of_bind hrpu
  obtain ⟨w₁, -, hput⟩ := Checked.ok_of_bind hput
  obtain ⟨w₂, -, hput⟩ := Checked.ok_of_bind hput
  obtain ⟨w₃, hmapping, -⟩ := Checked.ok_of_bind hput
  obtain ⟨w₄, -, hmapping⟩ := Checked.ok_of_bind hmapping
  cases hreuses : p.reuses with
  | true => exact hs.slots p.id m.mapping (hplans.slot hreuses)
  | false =>
    rw [hreuses, if_neg Bool.false_ne_true] at hmapping
    rw [← hplans.metadata]
    exact Mapping.wellFormed_of_put hplans.valid.mapping hplans.valid.id hmapping

/-- A color description that is left out has the bit depth of the last one. -/
theorem Plans.color_wellFormed (hplans : s.Plans m options p) (hs : s.KeepsColor)
    (hhas : p.hasColor = true) : p.metadata.color.IsWellFormed where
  id_le := hplans.valid.colorId
  bitDepth := by
    cases hcompressed : p.compressed with
    | true =>
      obtain ⟨⟨c, hlast, hsame⟩, -⟩ := hplans.last hcompressed
      rw [hplans.metadata, ← hsame]
      exact (hs.color c hlast).bitDepth
    | false => exact hplans.valid.bitDepth hhas hcompressed

/-- The mapping of an RPU is kept in its slot, and the others were there before. -/
theorem Plans.keepsMappings_commit (hplans : s.Plans m options p) (hs : s.KeepsMappings)
    (hrpu : p.rpu = .ok rpu) : (s.commit p).KeepsMappings where
  active := by
    intro id hactive
    have hid : p.id = id := by
      rw [commit_eq] at hactive
      exact Option.some.inj hactive
    rw [← hid, slot_commit_self hplans]
    rfl
  slots := by
    intro id mapping hslot
    by_cases hid : id = p.id
    · rw [hid, slot_commit_self hplans] at hslot
      rw [hid, ← Option.some.inj hslot]
      exact hplans.mapping_wellFormed hs hrpu
    · exact hs.slots id mapping (slot_commit_of_ne hid hslot)

/-- The color description and the blocks of an RPU are kept if it has any. -/
theorem Plans.keepsColor_commit (hplans : s.Plans m options p) (hs : s.KeepsColor) :
    (s.commit p).KeepsColor := by
  unfold commit
  cases hhas : p.hasColor with
  | true =>
    rw [if_pos rfl]
    exact keepsColor_sent (hplans.color_wellFormed hs hhas)
      ⟨hplans.valid.limits, hplans.valid.sorted⟩
  | false =>
    rw [if_neg Bool.false_ne_true]
    exact hs.assumed.of_eq rfl rfl rfl

/-- An RPU that was written leaves a stream in which the invariant holds. -/
theorem Plans.invariant_commit (hplans : s.Plans m options p) (hs : s.Invariant)
    (hrpu : p.rpu = .ok rpu) : (s.commit p).Invariant := by
  have hmappings := hplans.keepsMappings_commit hs.toKeepsMappings hrpu
  have hcolor := hplans.keepsColor_commit hs.toKeepsColor
  refine invariant_of_keeps hmappings hcolor ?_ ?_ ?_ <;> rw [commit_eq]
  · rfl
  · cases p.hasColor <;> exact nofun
  · exact hplans.valid.rpuType

/-- **Encoding keeps the invariant**, whatever is encoded. -/
theorem Invariant.encode (hs : s.Invariant) (m : Option Metadata) (options : EncodeOptions) :
    (s.encode m options).state.Invariant := by
  cases m with
  | none => exact hs
  | some m =>
    cases hresult : (s.encode (some m) options).result with
    | error fault =>
      rw [state_encode_of_error hresult]
      exact hs
    | ok out =>
      obtain ⟨p, rpu, hplan, hrpu, -, hencode⟩ := encode_eq_ok hresult
      rw [hencode]
      exact (plans_of_plan hplan).invariant_commit hs hrpu

end Encoding

/-! ### Configuring -/

/-- The invariant says nothing of the configuration, nor of the choice of the encoder. -/
theorem Invariant.configured (hs : s.Invariant) (enable : Enable) (configuration : Configuration) :
    Invariant { s with enable, configuration } where
  toKeepsMappings := hs.toKeepsMappings.of_eq rfl rfl
  toKeepsColor := hs.toKeepsColor.of_eq rfl rfl rfl
  views := hs.views
  header := hs.header
  flushed := by
    intro hnone
    have hflushed := hs.flushed hnone
    rw [hflushed]
    rfl

/-- **Configuring keeps the invariant**, since it settles nothing but the configuration. -/
theorem Invariant.configure (hs : s.Invariant) (p : Parameters) (m : Option Metadata)
    (compression : Compression) (compliance : Compliance) :
    (s.configure p m compression compliance).state.1.Invariant := by
  unfold Stream.configure
  dsimp only
  split
  · exact hs.configured s.enable _
  · exact hs

end Stream

/-! ### Exported metadata -/

namespace Stream

/-- What is known of metadata that a stream exports. -/
structure Exports (s : Stream) (m : Metadata) : Prop where
  rpuType : m.header.rpuType = knownRpuType
  mapping : ∃ id, s.active = some id ∧ m.mapping.IsWellFormed id.val
  color : m.color.IsWellFormed
  blocks : ∃ blocks : BlockSet, blocks.IsWellFormed ∧ m.blocks = blocks.toList

variable {s : Stream} {m : Metadata}

/-- The color description that holds is well formed. -/
theorem KeepsColor.activeColor (hs : s.KeepsColor) {c : SourceColor} (hc : s.activeColor = some c) :
    c.IsWellFormed := by
  unfold Stream.activeColor at hc
  split at hc
  · cases hc
  · rw [← Option.some.inj hc]
    exact ⟨by decide, by decide⟩
  · exact hs.color c hc

/-- A stream exports metadata exactly if a mapping holds. -/
theorem Invariant.isSome_metadata (hs : s.Invariant) :
    s.metadata.isSome ↔ s.active.isSome := by
  constructor
  · intro hsome
    cases hactive : s.active with
    | some id => rfl
    | none =>
      unfold metadata activeMapping at hsome
      rw [hactive] at hsome
      cases hsome
  · intro hsome
    obtain ⟨id, hactive⟩ := Option.isSome_iff_exists.1 hsome
    obtain ⟨mapping, hslot⟩ := Option.isSome_iff_exists.1 (hs.active id hactive)
    have hmapping : s.activeMapping = some mapping := by
      unfold activeMapping
      rw [hactive]
      exact hslot
    -- A view of the color goes with every mapping, and a description with that view.
    have hcolor : s.activeColor.isSome := by
      unfold Stream.activeColor
      cases hview : s.view with
      | unknown => exact absurd hview (hs.views.1 hsome)
      | assumed => rfl
      | sent => exact hs.sent hview
    obtain ⟨color, hcolor⟩ := Option.isSome_iff_exists.1 hcolor
    have hm : s.metadata = some { header := s.header, mapping, color, blocks := _ } :=
      metadata_eq rfl hmapping hcolor rfl
    rw [hm]
    rfl

/-- **What a stream exports is well formed.** -/
theorem Invariant.exports (hs : s.Invariant) (hm : s.metadata = some m) : s.Exports m := by
  have hactive := hs.isSome_metadata.1 (Option.isSome_iff_exists.2 ⟨m, hm⟩)
  obtain ⟨id, hid⟩ := Option.isSome_iff_exists.1 hactive
  obtain ⟨mapping, hmapping, hm⟩ := Option.bind_eq_some_iff.1 hm
  obtain ⟨color, hcolor, hm⟩ := Option.bind_eq_some_iff.1 hm
  rw [← Option.some.inj hm]
  refine ⟨hs.header hactive, ⟨id, hid, ?_⟩, hs.activeColor hcolor, ?_⟩
  · unfold activeMapping at hmapping
    rw [hid] at hmapping
    exact hs.slots id mapping hmapping
  · cases hblocks : s.blocks with
    | none => exact ⟨{}, BlockSet.wellFormed_empty, rfl⟩
    | some blocks => exact ⟨blocks, (hs.blocks blocks hblocks).2, rfl⟩

end Stream

/-! ### Reachable streams -/

namespace LabelledStream

/-- The streams that operations lead to from an empty one, which may have any name.  What an
operation is given is arbitrary, and so is what is written to the configuration and to the choice of
the encoder. -/
inductive Reachable : LabelledStream → Prop
  | empty (label : Option String) : Reachable { label }
  | decode {s : LabelledStream} (data : List UInt8) (strictness : Strictness) :
      Reachable s → Reachable { s with stream := (s.stream.decode data strictness).state }
  | encode {s : LabelledStream} (m : Option Metadata) (options : EncodeOptions) :
      Reachable s → Reachable { s with stream := (s.stream.encode m options).state }
  | configure {s : LabelledStream} (p : Parameters) (m : Option Metadata)
      (compression : Compression) (compliance : Compliance) :
      Reachable s →
        Reachable { s with stream := (s.stream.configure p m compression compliance).state.1 }
  | flush {s : LabelledStream} : Reachable s → Reachable { s with stream := s.stream.flush }
  | release {s : LabelledStream} : Reachable s → Reachable s.release
  | replaceBy {s other : LabelledStream} :
      Reachable s → Reachable other → Reachable (s.replaceBy other)
  | write {s : LabelledStream} (enable : Enable) (configuration : Configuration) :
      Reachable s → Reachable { s with stream := { s.stream with enable, configuration } }

/-- **The invariant holds of every reachable stream.** -/
theorem Reachable.invariant {s : LabelledStream} (hs : s.Reachable) : s.stream.Invariant := by
  induction hs with
  | empty label => exact Stream.invariant_flush {}
  | decode data strictness _ ih => exact ih.decode data strictness
  | encode m options _ ih => exact ih.encode m options
  | configure p m compression compliance _ ih => exact ih.configure p m compression compliance
  | flush _ _ => exact Stream.invariant_flush _
  | release _ _ => exact Stream.invariant_flush {}
  | replaceBy _ _ _ ihother => exact ihother
  | write enable configuration _ ih => exact ih.configured enable configuration

/-- **Every reachable stream is coherent**: the invariant holds, metadata is exported exactly if a
mapping holds, and what is exported is well formed. -/
theorem coherent_of_reachable {s : LabelledStream} (hs : s.Reachable) :
    s.stream.Invariant ∧ (s.stream.metadata.isSome ↔ s.stream.active.isSome) ∧
      ∀ m, s.stream.metadata = some m → s.stream.Exports m :=
  ⟨hs.invariant, hs.invariant.isSome_metadata, fun _ hm => hs.invariant.exports hm⟩

/-- Metadata with a static block and one that describes a frame. -/
def graded : Metadata :=
  { Metadata.identity with blocks := [.level254 {}, .level1 { maxPq := 3079 }] }

/-- An encoder that has written such metadata. -/
def grading : LabelledStream :=
  { stream := (Stream.encode { configuration := { profile := 8 } } (some graded)
      { nal := true }).state }

/-- A decoder that takes the place of that encoder is reachable, and exports what the encoder has
written. -/
theorem coherent_grading :
    ((named "decoder").replaceBy grading).Reachable ∧
      ((named "decoder").replaceBy grading).stream.metadata = some graded ∧
        ((named "decoder").replaceBy grading).stream.Exports graded := by
  have hconfigured : LabelledStream.Reachable { stream := { configuration := { profile := 8 } } } :=
    .write .off { profile := 8 } (.empty none)
  have hreachable : ((named "decoder").replaceBy grading).Reachable :=
    .replaceBy (.empty _) (.encode (some graded) { nal := true } hconfigured)
  have hmetadata : ((named "decoder").replaceBy grading).stream.metadata = some graded := by
    decide +kernel
  obtain ⟨-, -, hexports⟩ := coherent_of_reachable hreachable
  exact ⟨hreachable, hmetadata, hexports graded hmetadata⟩

end LabelledStream

end DolbyVision
