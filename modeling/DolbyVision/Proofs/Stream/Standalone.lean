/-
**RPUs that stand alone.**

In a stream without compression an RPU says everything itself.  A careful decoder refuses an RPU
that refers to a mapping there, and without the flag of compressed data neither the color
description nor the static blocks of the last RPU are taken over.  So what such a decoder makes of
an RPU depends on the RPU and on the configuration only (`Configuration.readStandalone`): the
mappings, the color description, the blocks and the header that earlier RPUs left behind have no
part in it.

Main definitions:

* `DolbyVision.Standalone` — what an RPU without references says;
* `DolbyVision.Configuration.readStandalone`, `decodeStandalone` — reads such an RPU, knowing the
  configuration only;
* `DolbyVision.Stream.adopt` — the state of a stream after such an RPU.

Main results:

* `DolbyVision.Stream.readBody_eq_standalone` — **a careful decoder of a stream without compression
  reads nothing else**;
* `DolbyVision.Stream.metadata_adopt` — what such an RPU says is exported;
* `DolbyVision.Stream.decode_standalone` — what a careful decoder makes of an RPU;
* `DolbyVision.Stream.decode_selfContained` — **two decoders of one configuration agree on every
  RPU**, whatever they have decoded before.
-/

import DolbyVision.Proofs.Stream.Invariant
import DolbyVision.Proofs.Stream.Outcomes

set_option relaxedAutoImplicit false
set_option autoImplicit false

namespace DolbyVision

open Bits

/-! ### What an RPU says -/

/-- What an RPU without references says. -/
structure Standalone where
  header : Header
  id : Id
  mapping : Mapping
  /-- The color description and the blocks, if there is display management data. -/
  color : Option (SourceColor × BlockSet)

/-- The metadata of a frame with such an RPU. -/
def Standalone.metadata (a : Standalone) : Metadata where
  header := a.header
  mapping := a.mapping
  color := (a.color.map Prod.fst).getD .assumed
  blocks := (a.color.map fun c => c.2.toList).getD []

namespace Stream

/-- Reads display management data that refers to nothing. -/
def readOwnColor (strictness : Strictness) : Decoder (SourceColor × BlockSet) := do
  let affected ← readId
  let current ← readId
  if affected ≠ current then
    throw (.unsupported .mismatchedColorIds)
  let color ← readSourceColor {} false affected
  let blocks ← readBlocks false strictness {}
  return (color, blocks)

/-- The state of a stream after an RPU that refers to nothing. -/
def adopt (s : Stream) (a : Standalone) : Stream :=
  { s with
    header := a.header
    active := some a.id
    slots := s.slots.keep a.id a.mapping
    view := if a.color.isSome then .sent else .assumed
    color := (a.color.map Prod.fst).or s.color
    blocks := a.color.bind fun c => if c.2.isEmpty then none else some c.2 }

end Stream

/-- Reads what follows the type of an RPU that refers to nothing. -/
def Configuration.readStandalone (c : Configuration) (strictness : Strictness) (rpuType : UInt8) :
    Decoder Standalone := do
  let header ← Header.read rpuType strictness
  let hasColor ← Reader.flag
  let reuses ← Reader.flag
  Stream.checkProfile { configuration := c } strictness header reuses
  let id ← Stream.readId
  let mapping ← Mapping.read header id.val header.usesNlq
  let color ← if hasColor then some <$> Stream.readOwnColor strictness else pure none
  return { header, id, mapping, color }

/-- Reads an RPU that refers to nothing from its first bit on, or passes over it if its type is not
known. -/
def Configuration.readStandaloneRpu (c : Configuration) (strictness : Strictness) :
    Decoder (Option Standalone) := do
  let rpuType ← Reader.u8 6
  if rpuType = Stream.knownRpuType then
    some <$> c.readStandalone strictness rpuType
  else
    Decoder.report (.unrecognizedRpuType rpuType)
    return none

/-- Decodes what a container holds, if it refers to nothing. -/
def Configuration.decodeStandalone (c : Configuration) (data : List UInt8)
    (strictness : Strictness) : Except Fault (Option Standalone) :=
  match Stream.opened { configuration := c } data strictness with
  | .error fault => .error fault
  | .ok start =>
    match c.readStandaloneRpu strictness start with
    | .ok a _ => .ok a
    | .error fault _ => .error fault

namespace Stream

variable {s : Stream} {strictness : Strictness}

/-! ### Reading it -/

/-- The rules of the profile depend on the configuration only. -/
theorem checkProfile_congr (h : Header) (reuses : Bool) :
    s.checkProfile strictness h reuses =
      checkProfile { configuration := s.configuration } strictness h reuses :=
  rfl

/-- A careful decoder of a stream without compression refuses an RPU that refers to a mapping,
whatever follows. -/
theorem checkProfile_reuses {α : Type} (hnone : s.configuration.compression = .none)
    (hcareful : strictness.isCareful = true) (h : Header) (f g : Unit → Decoder α) :
    (s.checkProfile strictness h true >>= f) = (s.checkProfile strictness h true >>= g) := by
  have hfails (state : DecoderState) :
      ∃ fault state', s.checkProfile strictness h true state = .error fault state' := by
    have hoff : s.compresses = false := by rw [compresses, hnone]; rfl
    unfold checkProfile
    dsimp only
    rw [hoff, hcareful]
    by_cases hresidual : s.profileFor h = 5 ∧ h.usesNlq = true
    · rw [if_pos hresidual]
      exact ⟨_, _, rfl⟩
    · rw [if_neg hresidual]
      exact ⟨_, _, rfl⟩
  funext state
  obtain ⟨fault, state', hfail⟩ := hfails state
  rw [Run.bind_error hfail, Run.bind_error hfail]

/-- Without compression, display management data is read for what it says itself. -/
theorem readColor_eq_own :
    s.readColor false strictness = (do
      let c ← readOwnColor strictness
      return { s with
        color := some c.1
        view := .sent
        blocks := if c.2.isEmpty then none else some c.2 }) := by
  unfold readColor readOwnColor
  simp only [bind_assoc]
  refine bind_congr fun affected => bind_congr fun current => ?_
  split
  · rfl
  · simp only [bind_assoc, pure_bind]
    rfl

/-- **A careful decoder of a stream without compression reads nothing but what an RPU says
itself.** -/
theorem readBody_eq_standalone (hnone : s.configuration.compression = .none)
    (hcareful : strictness.isCareful = true) (rpuType : UInt8) :
    s.readBody strictness rpuType =
      s.adopt <$> s.configuration.readStandalone strictness rpuType := by
  have hoff : ¬ s.compresses = true := by rw [compresses, hnone]; decide
  rw [readBody_eq, ← bind_pure_comp, Configuration.readStandalone]
  simp only [bind_assoc]
  refine bind_congr fun h => bind_congr fun hasColor => bind_congr fun reuses => ?_
  rw [if_neg hoff, pure_bind, readParts, checkProfile_congr]
  cases reuses with
  | true => exact checkProfile_reuses hnone hcareful h _ _
  | false =>
    refine bind_congr fun _ => ?_
    simp only [readMapping, bind_assoc, Bool.false_eq_true, if_false, pure_bind]
    refine bind_congr fun id => bind_congr fun mapping => ?_
    cases hasColor with
    | true =>
      simp only [if_true, readColor_eq_own, ← bind_pure_comp, bind_assoc, pure_bind]
      rfl
    | false => rfl

theorem readRpu_eq_standalone (hnone : s.configuration.compression = .none)
    (hcareful : strictness.isCareful = true) :
    s.readRpu strictness =
      (fun a => a.elim s s.adopt) <$> s.configuration.readStandaloneRpu strictness := by
  unfold readRpu Configuration.readStandaloneRpu
  rw [← bind_pure_comp, bind_assoc]
  refine bind_congr fun rpuType => ?_
  by_cases hknown : rpuType = knownRpuType
  · rw [if_pos hknown, if_pos hknown, readBody_eq_standalone hnone hcareful]
    simp only [← bind_pure_comp, bind_assoc, pure_bind]
    rfl
  · rw [if_neg hknown, if_neg hknown, bind_assoc]
    rfl

/-! ### What is exported -/

/-- A mapping that was read is in its slot. -/
theorem activeMapping_adopt (a : Standalone) : (s.adopt a).activeMapping = some a.mapping := by
  have hslot : (s.slots.keep a.id a.mapping)[a.id] = some a.mapping := by
    rw [get_keep, if_pos rfl]
  exact hslot

theorem activeColor_adopt (a : Standalone) :
    (s.adopt a).activeColor = some ((a.color.map Prod.fst).getD .assumed) := by
  unfold activeColor adopt
  cases a.color <;> rfl

/-- **What an RPU that refers to nothing says is exported**, whatever was said before it. -/
theorem metadata_adopt (a : Standalone) : (s.adopt a).metadata = some a.metadata := by
  have hblocks : ((s.adopt a).blocks.map BlockSet.toList).getD [] =
      (a.color.map fun c => c.2.toList).getD [] := by
    unfold adopt
    rcases a.color with _ | ⟨color, blocks⟩
    · rfl
    · by_cases hempty : blocks.isEmpty = true
      · have hlist : blocks.toList = [] := by
          rw [BlockSet.isEmpty, Bool.and_eq_true, List.isEmpty_iff, List.isEmpty_iff] at hempty
          rw [BlockSet.toList, hempty.1, hempty.2, List.append_nil]
        simp [hempty, hlist]
      · simp [hempty]
  unfold metadata
  rw [activeMapping_adopt, activeColor_adopt, hblocks]
  rfl

theorem metadata_flush (s : Stream) : s.flush.metadata = none := rfl

/-! ### Decoding -/

/-- **What a careful decoder makes of an RPU** in a stream without compression. -/
theorem decode_standalone (hnone : s.configuration.compression = .none)
    (hcareful : strictness.isCareful = true) (data : List UInt8) :
    match s.configuration.decodeStandalone data strictness with
    | .error fault =>
      (s.decode data strictness).result = .error fault ∧
        (s.decode data strictness).state = s.flush
    | .ok none =>
      (s.decode data strictness).result = .ok () ∧ s.rpuType data ≠ some knownRpuType ∧
        (s.decode data strictness).state = s
    | .ok (some a) =>
      (s.decode data strictness).result = .ok () ∧ s.rpuType data = some knownRpuType ∧
        (s.decode data strictness).state = s.adopt a := by
  have hopened : Stream.opened { configuration := s.configuration } data strictness =
      s.opened data strictness := opened_congr rfl
  unfold Configuration.decodeStandalone
  rw [hopened]
  cases hopen : s.opened data strictness with
  | error fault => exact decode_of_refused hopen
  | ok start =>
    obtain ⟨hread, hfails⟩ := decode_of_opened hopen
    obtain ⟨t, r, htype, hfirst⟩ := type_of_opened hopen
    rw [readRpu_eq_standalone hnone hcareful, ← bind_pure_comp] at hread hfails
    dsimp only
    cases hrun : s.configuration.readStandaloneRpu strictness start with
    | error fault state => exact hfails _ _ (Run.bind_error hrun)
    | ok said state =>
      obtain ⟨hresult, hstate⟩ := hread _ _ (Run.bind_ok hrun)
      -- Whether anything was said tells the type.
      unfold Configuration.readStandaloneRpu at hrun
      rw [Run.bind_ok (Decoder.lift_ok hfirst)] at hrun
      split at hrun
      · case isTrue hknown =>
        rw [← bind_pure_comp] at hrun
        obtain ⟨a, state', -, hrest⟩ := Run.ok_of_bind hrun
        cases hrest
        exact ⟨hresult, by rw [htype, hknown], hstate⟩
      · case isFalse hunknown =>
        obtain ⟨⟨⟩, state', -, hrest⟩ := Run.ok_of_bind hrun
        cases hrest
        exact ⟨hresult, by rw [htype]; simpa using hunknown, hstate⟩

/-- **Two decoders of one configuration without compression agree on every RPU** that careful
decoders read, whatever they have decoded before: both accept it or both refuse it for the same
reason, what it says is exported by both, and neither exports anything after it was refused. -/
theorem decode_selfContained {a b : Stream} (hsame : a.configuration = b.configuration)
    (hnone : a.configuration.compression = .none) (hcareful : strictness.isCareful = true)
    (data : List UInt8) :
    (a.decode data strictness).result = (b.decode data strictness).result ∧
    ((a.decode data strictness).result = .ok () → a.rpuType data = some knownRpuType →
      (a.decode data strictness).state.metadata = (b.decode data strictness).state.metadata ∧
        (a.decode data strictness).state.metadata.isSome = true) ∧
    ∀ fault, (a.decode data strictness).result = .error fault →
      (a.decode data strictness).state.metadata = none ∧
        (b.decode data strictness).state.metadata = none := by
  have ha := decode_standalone hnone hcareful data
  have hb := decode_standalone (s := b) (by rw [← hsame, hnone]) hcareful data
  rw [hsame] at ha
  -- Both runs are described by what the RPU says under their one configuration.
  cases hsaid : b.configuration.decodeStandalone data strictness with
  | error fault =>
    rw [hsaid] at ha hb
    rw [ha.1, hb.1, ha.2, hb.2]
    exact ⟨rfl, nofun, fun _ _ => ⟨rfl, rfl⟩⟩
  | ok said =>
    rw [hsaid] at ha hb
    cases said with
    | none =>
      rw [ha.1, hb.1]
      exact ⟨rfl, fun _ hknown => absurd hknown ha.2.1, nofun⟩
    | some said =>
      rw [ha.1, hb.1, ha.2.2, hb.2.2, metadata_adopt, metadata_adopt]
      exact ⟨rfl, fun _ _ => ⟨rfl, rfl⟩, nofun⟩

/-- The payload of an RPU that leaves a base layer of ten bits as it is and has no display
management data. -/
def identityPayload : List UInt8 :=
  [25, 8, 0, 8, 64, 96, 54, 80, 79, 0, 63, 248, 1, 255, 192, 15, 255, 208, 0, 0, 8, 0, 0, 6, 128, 0,
    0, 64, 0, 0, 52, 0, 0, 2, 0, 0, 0, 191, 248, 100, 167, 128]

/-- A stream that has kept a color description and blocks agrees with an empty one on an RPU without
display management data. -/
theorem decode_selfContained_grading :
    LabelledStream.grading.stream.configuration = { profile := 8 } ∧
      Strictness.careful.isCareful = true ∧
      LabelledStream.grading.stream.rpuType identityPayload = some knownRpuType ∧
      (LabelledStream.grading.stream.decode identityPayload .careful).result = .ok () ∧
      (LabelledStream.grading.stream.decode identityPayload .careful).state.metadata =
        (decode { configuration := { profile := 8 } } identityPayload .careful).state.metadata := by
  have htype : LabelledStream.grading.stream.rpuType identityPayload = some knownRpuType := by
    decide +kernel
  have hok : (LabelledStream.grading.stream.decode identityPayload .careful).result = .ok () := by
    decide +kernel
  obtain ⟨-, hexport, -⟩ := decode_selfContained (a := LabelledStream.grading.stream)
    (b := { configuration := { profile := 8 } }) (by decide +kernel) (by decide +kernel)
    (by decide : Strictness.careful.isCareful = true) identityPayload
  exact ⟨by decide +kernel, by decide, htype, hok, (hexport hok htype).1⟩

end Stream

end DolbyVision
