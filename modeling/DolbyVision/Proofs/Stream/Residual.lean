/-
**Whether there is a residual.**

Metadata says twice whether an enhancement layer adds a residual: its header has a flag that
disables it, and its mapping has a method for its inverse quantization or none.  An encoder writes
metadata only if the two agree.  A decoder makes them agree where an RPU has a mapping of its own.
Where an RPU refers to a mapping that was sent before, it takes the mapping as it is, under whatever
header the RPU has; so what is exported need not agree (`not_agreesOnResidual`).

What holds instead is a matter of where a mapping comes from.  A `Senders` record has the header
under which the mapping in each slot was sent, and is carried along as operations change a stream
(`LabelledStream.Traced`).  The mapping in a slot always agrees with the header in its record, and
exported metadata agrees exactly if the two headers do.

Main definitions:

* `DolbyVision.Metadata.AgreesOnResidual` — header and mapping say the same of the residual;
* `DolbyVision.Senders` — the headers under which mappings were sent;
* `DolbyVision.Stream.recordDecode`, `DolbyVision.Stream.recordEncode` — what an RPU adds to them;
* `DolbyVision.LabelledStream.Traced` — a reachable stream with its record.

Main results:

* `DolbyVision.Stream.SentUnder.decode`, `DolbyVision.Stream.SentUnder.encode` — **an RPU keeps the
  mappings in agreement with the record**;
* `DolbyVision.LabelledStream.residual_of_reachable` — **exported metadata agrees on the residual
  exactly if its header agrees with the one under which its mapping was sent**.
-/

import DolbyVision.Proofs.Stream.Invariant
import DolbyVision.Proofs.Stream.Outcomes
import DolbyVision.Proofs.Stream.Received

set_option relaxedAutoImplicit false
set_option autoImplicit false

namespace DolbyVision

open Bits

/-! ### The two places -/

/-- The mapping has a method of inverse quantization exactly if the header has a residual. -/
def Metadata.AgreesOnResidual (m : Metadata) : Prop :=
  m.mapping.nlqMethod.isSome = true ↔ m.header.disableResidual = false

/-- A mapping that is read has a method of inverse quantization exactly if it is said to. -/
theorem Mapping.gives_read_residual (h : Header) (id : Nat) (usesNlq : Bool) :
    Run.Gives (Mapping.read h id usesNlq) fun m => m.nlqMethod.isSome = usesNlq := by
  unfold Mapping.read
  refine .after fun colorSpace => .after fun chromaFormat => .after fun p₀ => ?_
  refine .after fun p₁ => .after fun p₂ => ?_
  have hread : usesNlq = true →
      Run.Gives (some <$> Mapping.readNlqMethod h) fun method => method.isSome = usesNlq := by
    intro huses
    rw [huses]
    exact Run.Gives.map (Q := fun _ => True) (fun _ _ _ _ => trivial) fun _ _ => rfl
  have hnone : ¬ usesNlq = true →
      Run.Gives (pure none : BitParser (Option (NlqMethod × Vector UInt16 2)))
        fun method => method.isSome = usesNlq := by
    intro hunused
    rw [Bool.not_eq_true] at hunused
    rw [hunused]
    exact .pure rfl
  refine .bindIf hread hnone fun method hmethod => ?_
  refine .after fun codeX => .after fun partitionsX => .after fun codeY => ?_
  refine .after fun partitionsY => .after fun c₀ => .after fun c₁ => ?_
  refine .after fun c₂ => .afterIf fun nlq => ?_
  refine .pure ?_
  rw [Option.isSome_map]
  exact hmethod

/-- The headers under which the mappings in the slots were sent. -/
abbrev Senders := Id → Header

namespace Stream

variable {s s' : Stream} {senders : Senders} {strictness : Strictness}

/-! ### Records -/

/-- Reads the header of an RPU, and the flag behind it that says whether the RPU refers to a
mapping.  Of an RPU whose type is not known nothing is read. -/
def readFront (strictness : Strictness) : Decoder (Option (Header × Bool)) := do
  let rpuType ← Reader.u8 6
  if rpuType = knownRpuType then
    let header ← Header.read rpuType strictness
    let _hasColor ← Reader.flag
    let reuses ← Reader.flag
    return some (header, reuses)
  else
    return none

/-- The header of an RPU with a mapping of its own. -/
def ownHeader (s : Stream) (data : List UInt8) (strictness : Strictness) : Option Header :=
  match s.opened data strictness with
  | .error _ => none
  | .ok start =>
    match readFront strictness start with
    | .ok (some (header, false)) _ => some header
    | _ => none

/-- The record after a decoder was given an RPU.  One that is accepted with a mapping of its own has
sent it in the slot that is active now. -/
def recordDecode (s : Stream) (senders : Senders) (data : List UInt8) (strictness : Strictness) :
    Senders :=
  match s.ownHeader data strictness, (s.decode data strictness).state.active with
  | some header, some id => Function.update senders id header
  | _, _ => senders

/-- The record after an encoder was given metadata.  If it has written an RPU that does not refer to
a mapping, the mapping was sent under the header of the metadata. -/
def recordEncode (s : Stream) (senders : Senders) (m : Metadata) (options : EncodeOptions) :
    Senders :=
  match s.plan m options, (s.encode (some m) options).result with
  | .ok p, .ok _ => if p.reuses then senders else Function.update senders p.id m.header
  | _, _ => senders

/-- The mapping in each slot has a method of inverse quantization exactly if the header under which
it was sent has a residual. -/
def SentUnder (s : Stream) (senders : Senders) : Prop :=
  ∀ id m, s.slot id = some m → m.nlqMethod.isSome = (senders id).usesNlq

/-! ### Slots -/

theorem SentUnder.of_eq (h : s.SentUnder senders) (hslots : s'.slots = s.slots) :
    s'.SentUnder senders := by
  intro id m hslot
  unfold slot at hslot
  rw [hslots] at hslot
  exact h id m hslot

/-- Nothing was sent to a stream that was flushed. -/
theorem sentUnder_flush (s : Stream) (senders : Senders) : s.flush.SentUnder senders := by
  intro id m hslot
  have hempty : s.flush.slot id = none := get_empty id
  rw [hempty] at hslot
  cases hslot

/-- A slot in which a mapping was sent, and the others as they were. -/
theorem SentUnder.keep (h : s.SentUnder senders) {id : Id} {m : Mapping} {header : Header}
    (hm : m.nlqMethod.isSome = header.usesNlq) (hslots : s'.slots = s.slots.keep id m) :
    s'.SentUnder (Function.update senders id header) := by
  intro id' m' hslot
  unfold slot at hslot
  rw [hslots, get_keep] at hslot
  split at hslot
  · case isTrue heq =>
    obtain rfl := Option.some.inj hslot
    rw [← heq, Function.update_self]
    exact hm
  · case isFalse hne =>
    rw [Function.update_of_ne (Ne.symm hne)]
    exact h id' m' hslot

/-! ### Decoding -/

/-- What an RPU with a given header does to the mappings: one that refers to a mapping leaves them,
and any other sends one in the slot that it makes active. -/
def Sends (s : Stream) (header : Header) (reuses : Bool) (s' : Stream) : Prop :=
  if reuses then s'.slots = s.slots
  else ∃ id m, s'.active = some id ∧ m.nlqMethod.isSome = header.usesNlq ∧
    s'.slots = s.slots.keep id m

/-- What follows a mapping leaves the mappings as they are. -/
theorem Sends.of_eq {header : Header} {reuses : Bool} {s'' : Stream}
    (h : s.Sends header reuses s') (hactive : s''.active = s'.active)
    (hslots : s''.slots = s'.slots) : s.Sends header reuses s'' := by
  unfold Sends
  rw [hactive, hslots]
  exact h

theorem gives_readMapping_sends (s : Stream) (header : Header) (reuses : Bool) :
    Run.Gives (s.readMapping header reuses) (s.Sends header reuses) := by
  refine .after fun id => .ite (fun hreuses => ?_) fun hown => ?_
  · refine .ite (fun _ => .after fun _ => .stop) fun _ => .pure ?_
    unfold Sends
    rw [if_pos hreuses]
  · refine .bind (Mapping.gives_read_residual header id.val header.usesNlq).lift fun m hm =>
      .pure ?_
    unfold Sends
    rw [if_neg hown]
    exact ⟨id, m, rfl, hm, rfl⟩

theorem gives_readParts_sends (s : Stream) (header : Header) (hasColor reuses compressed : Bool) :
    Run.Gives (s.readParts strictness header hasColor reuses compressed)
      (s.Sends header reuses) := by
  refine .after fun _ => .bind (gives_readMapping_sends s header reuses) fun s' hs' => ?_
  have hcolor : Run.Gives (s'.readColor compressed strictness)
      fun s'' => s''.active = s'.active ∧ s''.slots = s'.slots :=
    .after fun affected => .after fun current => .check fun _ => .after fun color =>
      .after fun blocks => .pure ⟨rfl, rfl⟩
  refine .ite (fun _ => ?_) fun _ => .pure (hs'.of_eq rfl rfl)
  refine .bind hcolor fun s'' hs'' => .pure ?_
  exact hs'.of_eq hs''.1 hs''.2

/-- **What an accepted RPU does to the mappings is settled by its front.** -/
theorem readRpu_front {start state : DecoderState}
    (hrun : s.readRpu strictness start = .ok s' state) :
    (∃ state', readFront strictness start = .ok none state') ∧ s' = s ∨
      ∃ header reuses state', readFront strictness start = .ok (some (header, reuses)) state' ∧
        s.Sends header reuses s' := by
  obtain ⟨rpuType, state₁, htype, hrun⟩ := Run.ok_of_bind hrun
  unfold readFront
  rw [Run.bind_ok htype]
  by_cases hknown : rpuType = knownRpuType
  · rw [if_pos hknown] at hrun ⊢
    rw [readBody_eq] at hrun
    obtain ⟨header, state₂, hheader, hrun⟩ := Run.ok_of_bind hrun
    obtain ⟨hasColor, state₃, hcolor, hrun⟩ := Run.ok_of_bind hrun
    obtain ⟨reuses, state₄, hreuses, hrun⟩ := Run.ok_of_bind hrun
    rw [Run.bind_ok hheader, Run.bind_ok hcolor, Run.bind_ok hreuses]
    refine Or.inr ⟨header, reuses, state₄, rfl, ?_⟩
    have hparts : Run.Gives (do
        let compressed ← if s.compresses then liftM Reader.flag else pure false
        s.readParts strictness header hasColor reuses compressed) (s.Sends header reuses) :=
      .afterIf fun compressed => gives_readParts_sends s header hasColor reuses compressed
    exact hparts state₄ s' state hrun
  · rw [if_neg hknown] at hrun ⊢
    obtain ⟨⟨⟩, state₂, -, hrun⟩ := Run.ok_of_bind hrun
    cases hrun
    exact Or.inl ⟨⟨state₁, rfl⟩, rfl⟩

/-- **Decoding keeps the mappings in agreement with the record.** -/
theorem SentUnder.decode (h : s.SentUnder senders) (data : List UInt8) (strictness : Strictness) :
    (s.decode data strictness).state.SentUnder (s.recordDecode senders data strictness) := by
  cases hopen : s.opened data strictness with
  | error fault =>
    rw [(decode_of_refused hopen).2]
    exact sentUnder_flush s _
  | ok start =>
    obtain ⟨hread, hfails⟩ := decode_of_opened hopen
    cases hrun : s.readRpu strictness start with
    | error fault state =>
      rw [(hfails fault state hrun).2]
      exact sentUnder_flush s _
    | ok s' state =>
      unfold recordDecode ownHeader
      rw [hopen, (hread s' state hrun).2]
      dsimp only
      rcases readRpu_front hrun with ⟨⟨state', hfront⟩, rfl⟩ | ⟨header, reuses, state', hfront, hs'⟩
      · rw [hfront]
        exact h
      · rw [hfront]
        unfold Sends at hs'
        cases reuses with
        | true =>
          rw [if_pos rfl] at hs'
          exact h.of_eq hs'
        | false =>
          rw [if_neg Bool.false_ne_true] at hs'
          obtain ⟨id, m, hactive, hm, hslots⟩ := hs'
          rw [hactive]
          exact h.keep hm hslots

/-! ### Encoding -/

/-- **Encoding keeps the mappings in agreement with the record**, since a mapping is written only
under a header that agrees with it. -/
theorem SentUnder.encode (h : s.SentUnder senders) (m : Metadata) (options : EncodeOptions) :
    (s.encode (some m) options).state.SentUnder (s.recordEncode senders m options) := by
  unfold recordEncode
  cases hresult : (s.encode (some m) options).result with
  | error fault =>
    rw [state_encode_of_error hresult]
    cases s.plan m options <;> exact h
  | ok out =>
    obtain ⟨p, rpu, hplan, -, -, hencode⟩ := encode_eq_ok hresult
    have hplans := plans_of_plan hplan
    have hagrees : m.mapping.nlqMethod.isSome = m.header.usesNlq := by
      have hnlq := hplans.valid.mapping.nlq
      rwa [hplans.metadata] at hnlq
    rw [hplan, hencode]
    dsimp only
    intro id mapping hslot
    by_cases hid : id = p.id
    · subst hid
      rw [slot_commit_self hplans] at hslot
      obtain rfl := Option.some.inj hslot
      cases hreuses : p.reuses with
      | true =>
        rw [if_pos rfl]
        exact h p.id m.mapping (hplans.slot hreuses)
      | false =>
        rw [if_neg Bool.false_ne_true, Function.update_self]
        exact hagrees
    · have hbefore := h id mapping (slot_commit_of_ne hid hslot)
      cases p.reuses with
      | true => exact hbefore
      | false =>
        rw [if_neg Bool.false_ne_true, Function.update_of_ne hid]
        exact hbefore

/-! ### Exported metadata -/

/-- **Exported metadata agrees on the residual exactly if its header agrees with the one under which
its mapping was sent.** -/
theorem SentUnder.exports (h : s.SentUnder senders) {m : Metadata} (hm : s.metadata = some m) :
    ∃ id, s.active = some id ∧ m.mapping.nlqMethod.isSome = (senders id).usesNlq ∧
      (m.AgreesOnResidual ↔ (senders id).disableResidual = m.header.disableResidual) := by
  obtain ⟨mapping, hmapping, hm⟩ := Option.bind_eq_some_iff.1 hm
  obtain ⟨color, hcolor, hm⟩ := Option.bind_eq_some_iff.1 hm
  obtain ⟨id, hactive, hslot⟩ := Option.bind_eq_some_iff.1 hmapping
  obtain rfl := Option.some.inj hm
  have hsent := h id mapping hslot
  refine ⟨id, hactive, hsent, ?_⟩
  unfold Metadata.AgreesOnResidual
  rw [hsent, Header.usesNlq]
  cases (senders id).disableResidual <;> cases s.header.disableResidual <;> simp

end Stream

/-! ### Reachable streams -/

namespace LabelledStream

/-- The reachable streams, each with the headers under which the mappings in its slots were sent.
What a record says of a slot in which nothing was sent does not matter. -/
inductive Traced : LabelledStream → Senders → Prop
  | empty (label : Option String) (senders : Senders) : Traced { label } senders
  | decode {s : LabelledStream} {senders : Senders} (data : List UInt8) (strictness : Strictness) :
      Traced s senders → Traced { s with stream := (s.stream.decode data strictness).state }
        (s.stream.recordDecode senders data strictness)
  | encode {s : LabelledStream} {senders : Senders} (m : Metadata) (options : EncodeOptions) :
      Traced s senders → Traced { s with stream := (s.stream.encode (some m) options).state }
        (s.stream.recordEncode senders m options)
  | configure {s : LabelledStream} {senders : Senders} (p : Parameters) (m : Option Metadata)
      (compression : Compression) (compliance : Compliance) :
      Traced s senders →
        Traced { s with stream := (s.stream.configure p m compression compliance).state.1 } senders
  | flush {s : LabelledStream} {senders : Senders} :
      Traced s senders → Traced { s with stream := s.stream.flush } senders
  | release {s : LabelledStream} {senders : Senders} : Traced s senders → Traced s.release senders
  | replaceBy {s other : LabelledStream} {senders₁ senders₂ : Senders} :
      Traced s senders₁ → Traced other senders₂ → Traced (s.replaceBy other) senders₂
  | write {s : LabelledStream} {senders : Senders} (enable : Enable)
      (configuration : Configuration) :
      Traced s senders →
        Traced { s with stream := { s.stream with enable, configuration } } senders

variable {s : LabelledStream} {senders : Senders}

/-- Every reachable stream has a record. -/
theorem Reachable.traced (hs : s.Reachable) : ∃ senders, s.Traced senders := by
  induction hs with
  | empty label => exact ⟨fun _ => {}, .empty label _⟩
  | decode data strictness _ ih =>
    obtain ⟨senders, ih⟩ := ih
    exact ⟨_, ih.decode data strictness⟩
  | encode m options _ ih =>
    obtain ⟨senders, ih⟩ := ih
    cases m with
    | none => exact ⟨senders, ih⟩
    | some m => exact ⟨_, ih.encode m options⟩
  | configure p m compression compliance _ ih =>
    obtain ⟨senders, ih⟩ := ih
    exact ⟨senders, ih.configure p m compression compliance⟩
  | flush _ ih =>
    obtain ⟨senders, ih⟩ := ih
    exact ⟨senders, ih.flush⟩
  | release _ ih =>
    obtain ⟨senders, ih⟩ := ih
    exact ⟨senders, ih.release⟩
  | replaceBy _ _ ih ihother =>
    obtain ⟨senders₁, ih⟩ := ih
    obtain ⟨senders₂, ihother⟩ := ihother
    exact ⟨senders₂, ih.replaceBy ihother⟩
  | write enable configuration _ ih =>
    obtain ⟨senders, ih⟩ := ih
    exact ⟨senders, ih.write enable configuration⟩

/-- **The mappings of a reachable stream agree with its record.** -/
theorem Traced.sentUnder (hs : s.Traced senders) : s.stream.SentUnder senders := by
  induction hs with
  | empty label senders => exact Stream.sentUnder_flush {} senders
  | decode data strictness _ ih => exact ih.decode data strictness
  | encode m options _ ih => exact ih.encode m options
  | configure p m compression compliance _ ih =>
    refine ih.of_eq ?_
    unfold Stream.configure
    dsimp only
    split <;> rfl
  | flush _ _ => exact Stream.sentUnder_flush _ _
  | release _ _ => exact Stream.sentUnder_flush {} _
  | replaceBy _ _ _ ihother => exact ihother
  | write enable configuration _ ih => exact ih.of_eq rfl

/-- **When exported metadata agrees on the residual.**  Every reachable stream has a record of the
headers under which its mappings were sent.  Whatever it exports has a method of inverse
quantization exactly if the header in the record of its slot has a residual, and so it agrees with
its own header exactly if that header and the one in the record do. -/
theorem residual_of_reachable (hs : s.Reachable) :
    (∃ senders, s.Traced senders) ∧
      ∀ senders, s.Traced senders → ∀ m, s.stream.metadata = some m →
        ∃ id, s.stream.active = some id ∧
          m.mapping.nlqMethod.isSome = (senders id).usesNlq ∧
            (m.AgreesOnResidual ↔
              (senders id).disableResidual = m.header.disableResidual) :=
  ⟨hs.traced, fun _ htraced _ hm => htraced.sentUnder.exports hm⟩

/-- The payload of an RPU that has a residual, and a mapping of its own in slot 0. -/
def residualPayload : List UInt8 :=
  [25, 8, 0, 8, 64, 96, 54, 80, 7, 128, 31, 252, 0, 255, 224, 7, 254, 0, 0, 3, 208, 0, 0, 8, 0, 0,
    6, 128, 0, 0, 64, 0, 0, 52, 0, 0, 2, 0, 0, 0, 0, 64, 0, 0, 64, 0, 0, 64, 0, 0, 0, 16, 0, 0, 16,
    0, 0, 16, 0, 0, 0, 4, 0, 0, 4, 0, 0, 4, 0, 0, 0, 20, 175, 185, 120, 128]

/-- The payload of an RPU that has no residual, and refers to the mapping in slot 0. -/
def reusingPayload : List UInt8 :=
  [25, 8, 0, 8, 64, 96, 54, 80, 84, 65, 48, 65, 91, 128]

/-- A decoder that was given the one and then the other. -/
def reusing : LabelledStream :=
  { stream := ((Stream.decode { configuration := { profile := 8, compression := .limited } }
      residualPayload .none).state.decode reusingPayload .none).state }

/-- What it exports: a method of inverse quantization, under a header without a residual. -/
def reused : Metadata :=
  { Metadata.identity with mapping := { Mapping.identity with nlqMethod := some .linearDeadzone } }

theorem reachable_reusing : reusing.Reachable := by
  have hconfigured : LabelledStream.Reachable
      { stream := { configuration := { profile := 8, compression := .limited } } } :=
    .write .off { profile := 8, compression := .limited } (.empty none)
  exact .decode reusingPayload .none (.decode residualPayload .none hconfigured)

theorem metadata_reusing : reusing.stream.metadata = some reused := by
  decide +kernel

/-- The mapping was sent under a header with a residual. -/
theorem residual_of_reachable_reusing :
    reusing.Reachable ∧ (∃ senders, reusing.Traced senders) ∧
      ∀ senders, reusing.Traced senders → (senders 0).disableResidual = false := by
  obtain ⟨htraced, hexports⟩ := residual_of_reachable reachable_reusing
  refine ⟨reachable_reusing, htraced, fun senders hsenders => ?_⟩
  obtain ⟨id, hactive, hmethod, -⟩ := hexports senders hsenders reused metadata_reusing
  have hzero : reusing.stream.active = some 0 := by decide +kernel
  obtain rfl := Option.some.inj (hactive.symm.trans hzero)
  have huses : (senders 0).usesNlq = true := hmethod.symm
  simpa [Header.usesNlq] using huses

/-- Not everything that is exported agrees on the residual. -/
theorem not_agreesOnResidual :
    ¬ ∀ s : LabelledStream, s.Reachable →
      ∀ m, s.stream.metadata = some m → m.AgreesOnResidual := by
  intro hclaim
  have hagrees := hclaim reusing reachable_reusing reused metadata_reusing
  have hdisabled : reused.header.disableResidual = false := hagrees.1 rfl
  cases hdisabled

end LabelledStream

end DolbyVision
