/-
**What was decoded can be encoded again.**

A decoder accepts far more than what an encoder writes: pivots beyond the largest word, blocks that
are longer than their fields, blocks of levels that are not known, blocks that are too many.  In a
stream without compression, what it exports can all the same be written by an encoder that has seen
nothing else, and a decoder that has seen nothing else exports it again.

Main definitions:

* `DolbyVision.Standalone.Received` — what is known of an RPU that was read;
* `DolbyVision.Metadata.IsWritable` — metadata that can be planned and written;
* `DolbyVision.Stream.Survives` — metadata that is encoded, decoded and exported again;
* `DolbyVision.Stream.decodeAll` — a decoder that is given one thing after the other;
* `DolbyVision.Stream.ExportsReceived` — what a decoder exports was received by it.

Main results:

* `DolbyVision.Configuration.gives_readStandalone` — what a decoder reads is received;
* `DolbyVision.Stream.Plans.exists_rpu` — **writable metadata can be planned and written**;
* `DolbyVision.Stream.survives_of_writable` — **writable metadata without loss survives being
  encoded and decoded again**;
* `DolbyVision.Stream.regenerates_decodeAll` — **so does whatever a decoder exports**.
-/

import DolbyVision.Proofs.Rpu.Readable
import DolbyVision.Proofs.Stream.Lockstep
import DolbyVision.Proofs.Stream.Standalone
import DolbyVision.Stream.RoundTrip

set_option relaxedAutoImplicit false
set_option autoImplicit false

namespace DolbyVision

open Bits

/-! ### RPUs that were read -/

/-- What is known of an RPU that a decoder of a stream without compression has read. -/
structure Standalone.Received (c : Configuration) (a : Standalone) : Prop where
  rpuType : a.header.rpuType = Stream.knownRpuType
  header : a.header.Valid ∧ a.header.Fits
  residual : Stream.profileFor { configuration := c } a.header = 5 → a.header.usesNlq = false
  mapping : a.mapping.IsWellFormed a.id.val
  canonical : a.mapping.IsCanonical ∧ a.mapping.IsCodable a.header ∧
    a.mapping.nlqMethod.isSome = a.header.usesNlq
  color : ∀ c ∈ a.color, c.1.IsWellFormed ∧ c.1.Fits ∧ c.2.ReceivedUpTo .second

namespace Stream

variable {s : Stream} {strictness : Strictness}

theorem gives_receivedBlocks :
    Run.Gives (readBlocks false strictness {}) (BlockSet.ReceivedUpTo .second) := by
  refine .bind (BlockGroup.gives_received (BlockSet.receivedUpTo_empty .first)) fun _ hfirst => ?_
  refine .after fun _ => ?_
  exact .ite (fun _ => BlockGroup.gives_received hfirst.second) fun _ => .pure hfirst.second

theorem gives_readOwnColor : Run.Gives (readOwnColor strictness) fun c =>
    c.1.IsWellFormed ∧ c.1.Fits ∧ c.2.ReceivedUpTo .second := by
  have hempty : KeepsColor {} := (invariant_flush {}).toKeepsColor
  refine .after fun affected => .after fun current => .check fun _ => ?_
  have hfits : Run.Gives (readSourceColor {} false affected) SourceColor.Fits :=
    .after fun sceneRefresh => SourceColor.gives_fits _ sceneRefresh
  refine .bind ((gives_readSourceColor hempty false affected).and hfits).lift fun color hcolor => ?_
  exact .bind gives_receivedBlocks fun blocks hblocks => .pure ⟨hcolor.1, hcolor.2, hblocks⟩

/-- A decoder refuses a residual in profile 5. -/
theorem gives_checkProfile (h : Header) (reuses : Bool) :
    Run.Gives (s.checkProfile strictness h reuses) fun _ =>
      s.profileFor h = 5 → h.usesNlq = false := by
  refine .ite (fun _ => .after fun _ => .stop) fun hno => ?_
  exact fun _ _ _ _ hfive => Bool.eq_false_iff.2 fun huses => hno ⟨hfive, huses⟩

end Stream

/-- **What a decoder reads is received.** -/
theorem Configuration.gives_readStandalone (c : Configuration) (strictness : Strictness) :
    Run.Gives (c.readStandalone strictness Stream.knownRpuType) (Standalone.Received c) := by
  refine .bind ((Header.gives_read _ _).and (Header.gives_valid _ _)).lift fun h hh => ?_
  refine .after fun hasColor => .after fun reuses => ?_
  refine .bind (Stream.gives_checkProfile h reuses) fun _ hresidual => ?_
  refine .after fun id => ?_
  have hmapping := (Mapping.gives_read h (Nat.le_of_lt_succ id.isLt) h.usesNlq).and
    (Mapping.gives_canonical hh.2.1 id.val h.usesNlq)
  refine .bind hmapping.lift fun m hm => ?_
  refine .bindIf (Q := fun color => ∀ c ∈ color,
      c.1.IsWellFormed ∧ c.1.Fits ∧ c.2.ReceivedUpTo .second)
    (fun _ => Stream.gives_readOwnColor.map fun c hc c' hc' => ?_) (fun _ => .pure nofun)
    fun color hcolor => .pure ⟨hh.1, hh.2, hresidual, hm.1, hm.2, hcolor⟩
  rw [← Option.mem_some.1 hc']
  exact hc

/-- What a decoder makes of data, if it refers to nothing, is received. -/
theorem Configuration.received_of_decodeStandalone {c : Configuration} {data : List UInt8}
    {strictness : Strictness} {a : Standalone}
    (hdecode : c.decodeStandalone data strictness = .ok (some a)) : a.Received c := by
  have hgives : Run.Gives (c.readStandaloneRpu strictness) fun said =>
      ∀ a ∈ said, Standalone.Received c a := by
    refine .after fun rpuType => .ite (fun htype => ?_) fun _ => .after fun _ => .pure ?_
    · rw [htype]
      refine (c.gives_readStandalone strictness).map fun a ha a' ha' => ?_
      rw [← Option.mem_some.1 ha']
      exact ha
    · intro a ha
      cases ha
  unfold Configuration.decodeStandalone at hdecode
  split at hdecode
  · cases hdecode
  · split at hdecode
    · case h_1 hrun =>
      obtain rfl := Except.ok.inj hdecode
      exact hgives _ _ _ hrun a rfl
    · cases hdecode

/-! ### What can be written -/

/-- Metadata that can be planned and written in a stream without compression. -/
structure Metadata.IsWritable (m : Metadata) : Prop where
  rpuType : m.header.rpuType = Stream.knownRpuType
  header : m.header.Valid
  mapping : m.mapping.Valid m.header.usesNlq
  codable : m.mapping.IsCodable m.header
  color : m.color.IsWellFormed
  blocks : ∃ blocks, BlockSet.ofList m.blocks = .ok blocks

namespace Standalone

variable {c : Configuration} {a : Standalone}

/-- What is known of the color description and the blocks holds also if there is no display
management data. -/
theorem Received.metadata (ha : a.Received c) :
    a.metadata.color.IsWellFormed ∧ a.metadata.color.Fits ∧
      ∃ blocks, a.metadata.blocks = BlockSet.toList blocks ∧ blocks.ReceivedUpTo .second := by
  have hassumed : SourceColor.assumed.IsWellFormed := ⟨by decide, by decide⟩
  unfold Standalone.metadata
  cases hcolor : a.color with
  | none =>
    have hempty := BlockSet.receivedUpTo_empty .second
    exact ⟨hassumed, SourceColor.fits_assumed, {}, rfl, hempty⟩
  | some c =>
    obtain ⟨hwell, hfits, hblocks⟩ := ha.color c hcolor
    exact ⟨hwell, hfits, c.2, rfl, hblocks⟩

theorem Received.isWritable (ha : a.Received c) : a.metadata.IsWritable := by
  obtain ⟨hcolor, -, blocks, hlist, hblocks⟩ := ha.metadata
  refine ⟨ha.rpuType, ha.header.1, ?_, ha.canonical.2.1, hcolor, blocks, ?_⟩
  · exact ha.mapping.valid (Nat.le_of_lt_succ a.id.isLt) ha.canonical.2.2
  · rw [hlist]
    exact hblocks.toIsWellFormed.ofList_toList

theorem Received.isCanonical (ha : a.Received c)
    (hfixed : a.header.coefficientType = Header.fixedPoint) : a.metadata.IsCanonical := by
  obtain ⟨-, hcolor, blocks, hlist, hblocks⟩ := ha.metadata
  refine ⟨hfixed, ha.header.2, ha.canonical.1, hcolor, ?_, ?_⟩
  · rw [hlist]
    exact hblocks.fits
  · rw [hlist]
    exact hblocks.inSendingOrder

end Standalone

namespace Stream

variable {s : Stream} {m : Metadata} {options : EncodeOptions} {p : Plan}

/-- Writable metadata passes the checks of an encoder. -/
theorem exists_plan (hm : m.IsWritable) (hprofile : s.configuration.profile ≠ 0)
    (hreserved : s.configuration.compression ≠ .reserved) :
    ∃ p, s.plan m options = .ok p := by
  obtain ⟨blocks, hblocks⟩ := hm.blocks
  have hid : m.mapping.id.toNat < maxId + 1 := Nat.lt_succ_of_le hm.mapping.id_le
  unfold plan
  rw [if_neg hprofile, if_neg (not_not.2 hm.rpuType), Header.validate_of_valid hm.header,
    Mapping.validate_of_valid hm.mapping, if_neg (Nat.not_lt.2 hm.color.id_le), hblocks]
  dsimp only [bind, Except.bind]
  rw [if_neg hreserved, dif_pos hid, if_neg]
  · exact ⟨_, rfl⟩
  · rintro ⟨-, -, hdepth⟩
    rw [hm.color.bitDepth] at hdepth
    cases hdepth

/-- What was planned of writable metadata can be written. -/
theorem Plans.exists_rpu (hplans : s.Plans m options p) (hm : m.IsWritable) :
    ∃ rpu, p.rpu = .ok rpu := by
  have hmetadata := hplans.metadata
  subst hmetadata
  have hmapping (w : Writer) : ∃ w', p.putMapping w = .ok w' := by
    refine Checked.exists_bind (Writer.exists_putUnsignedCode (p.code_fits) w) fun w => ?_
    split
    · exact ⟨w, rfl⟩
    · exact Mapping.puts hm.header hm.mapping hm.codable w
  obtain ⟨w, hput⟩ : ∃ w, p.put Writer.empty = .ok w := by
    refine Checked.exists_bind (Header.puts hm.header Writer.empty) fun w => ?_
    refine Checked.exists_bind (p.appends_putFlags.exists_ok w) fun w => ?_
    refine Checked.exists_bind (hmapping w) fun w => ?_
    split
    · exact hplans.valid.exists_putColor w
    · exact ⟨w, rfl⟩
  obtain ⟨body, hfinish, -⟩ := w.exists_finish
  exact ⟨_, Plan.rpu_eq hput hfinish⟩

/-! ### Encoding and decoding again -/

/-- The stream that encodes the metadata of another one has a profile. -/
theorem profile_regenerating (s : Stream) (h : Header) :
    (s.regenerating h).configuration.profile ≠ 0 := by
  unfold regenerating
  dsimp only
  split
  · decide
  · case isFalse hne => exact hne

/-- No header tells the profile whose RPUs come in T.35 messages. -/
theorem regenerating_ne_t35 {h : Header} (hprofile : s.configuration.profile ≠ t35Profile) :
    (s.regenerating h).configuration.profile ≠ t35Profile := by
  have hfor : s.profileFor h ≠ t35Profile := by
    unfold profileFor
    split
    · unfold Header.guessedProfile
      split_ifs <;> decide
    · exact hprofile
  unfold regenerating
  dsimp only
  split
  · decide
  · exact hfor

/-- The stream that encodes the metadata of another one keeps to its profile. -/
theorem residual_regenerating {h : Header} (hresidual : s.profileFor h = 5 → h.usesNlq = false)
    (hfive : (s.regenerating h).configuration.profile = 5) : h.disableResidual = true := by
  unfold regenerating at hfive
  dsimp only at hfive
  split at hfive
  · cases hfive
  · have hnone := hresidual hfive
    rwa [Header.usesNlq, Bool.not_eq_false'] at hnone

/-- Metadata survives a NAL unit, which one stream that has seen nothing makes of it and another one
decodes: the decoder verifies the checksum, gives up on minor errors and exports what was
written. -/
structure Survives (s : Stream) (m : Metadata) (nal : List UInt8) : Prop where
  encoded : ((s.regenerating m.header).encode (some m) { nal := true }).result = .ok nal
  decoded : ((s.regenerating m.header).decode (Nal.unwrap nal)
    (Strictness.checksum.union .explode)).result = .ok ()
  exported : ((s.regenerating m.header).decode (Nal.unwrap nal)
    (Strictness.checksum.union .explode)).state.metadata = some m

/-- The units of a stream are NAL units, unless they are T.35 messages. -/
theorem wrapping_nal {s : Stream} (hprofile : s.configuration.profile ≠ t35Profile) :
    s.wrapping false = { nal := true } := by
  have ht35 : (s.configuration.profile == t35Profile) = false := beq_eq_false_iff_ne.2 hprofile
  unfold wrapping
  rw [ht35, bne_iff_ne.2 hprofile]

/-- Metadata that survives is found to do so. -/
theorem Survives.regenerates {nal : List UInt8} (h : s.Survives m nal)
    (hprofile : s.configuration.profile ≠ t35Profile) : s.regenerates m = .ok true := by
  have hnal := regenerating_ne_t35 (h := m.header) hprofile
  have ht35 : ((s.regenerating m.header).configuration.profile == t35Profile) = false :=
    beq_eq_false_iff_ne.2 hnal
  have hdata : (s.regenerating m.header).unwrap nal = .ok (Nal.unwrap nal) := if_neg hnal
  unfold Stream.regenerates
  dsimp only [bind, Except.bind]
  rw [ht35, Bool.not_false, h.encoded]
  dsimp only
  rw [hdata]
  dsimp only
  rw [h.decoded, h.exported]
  exact congrArg Except.ok (beq_self_eq_true (some m))

/-- **Writable metadata without loss survives being encoded and decoded again**, if it has no
residual in profile 5. -/
theorem survives_of_writable (hm : m.IsWritable) (hcanonical : m.IsCanonical)
    (hnone : s.configuration.compression = .none)
    (hprofile : s.configuration.profile ≠ t35Profile)
    (hresidual : s.profileFor m.header = 5 → m.header.usesNlq = false) :
    ∃ nal, s.Survives m nal := by
  let fresh := s.regenerating m.header
  have hnal : fresh.configuration.profile ≠ t35Profile := regenerating_ne_t35 hprofile
  have hreserved : fresh.configuration.compression ≠ .reserved := by
    change s.configuration.compression ≠ .reserved
    rw [hnone]
    decide
  obtain ⟨p, hplan⟩ : ∃ p, fresh.plan m (fresh.wrapping false) = .ok p :=
    exists_plan hm (profile_regenerating s m.header) hreserved
  have hplans := plans_of_plan hplan
  obtain ⟨rpu, hrpu⟩ := hplans.exists_rpu hm
  have hwrap : (fresh.wrapping false).wrap rpu = .ok (Nal.wrap rpu) := by
    rw [wrapping_nal hnal]
    rfl
  -- A stream that has seen nothing has what it may itself refer to, which is nothing.
  have hstep : Link.InStep ⟨fresh, fresh⟩ :=
    ⟨⟨rfl, fun _ _ hslot => hslot⟩, ⟨fun _ hlast => hlast, fun _ => rfl⟩⟩
  have hsuits : fresh.configuration.Suits (Strictness.checksum.union .explode) :=
    fun _ => Or.inl hnone
  obtain ⟨hfaithful, -⟩ := hstep.encode hplans hrpu hwrap hsuits
    ⟨hcanonical, residual_regenerating hresidual⟩ (fun ht35 => absurd ht35 hnal)
  have hdecode : fresh.decodeWrapped (Nal.wrap rpu) (Strictness.checksum.union .explode) =
      fresh.decode (Nal.unwrap (Nal.wrap rpu)) (Strictness.checksum.union .explode) :=
    decodeWrapped_eq (if_neg hnal)
  refine ⟨Nal.wrap rpu, ?_, ?_, ?_⟩
  · rw [← wrapping_nal hnal, encode_of_plan hplan hrpu hwrap]
  · rw [← hdecode]
    exact hfaithful.received
  · rw [← hdecode, ← hplans.metadata]
    exact hfaithful.exported

/-! ### Decoders -/

/-- A decoder that is given one thing after the other, with the strictness for each. -/
def decodeAll (s : Stream) (inputs : List (List UInt8 × Strictness)) : Stream :=
  inputs.foldl (fun s input => (s.decode input.1 input.2).state) s

/-- A decoder has its configuration, and has received what it exports. -/
structure ExportsReceived (s : Stream) (c : Configuration) : Prop where
  configuration : s.configuration = c
  received : ∀ m, s.metadata = some m → ∃ a : Standalone, a.Received c ∧ a.metadata = m

/-- An empty decoder exports nothing. -/
theorem exportsReceived_flush (s : Stream) : s.flush.ExportsReceived s.configuration where
  configuration := rfl
  received := by
    intro m hm
    rw [metadata_flush] at hm
    cases hm

/-- **Whatever a careful decoder makes of an RPU**, it has received what it exports afterwards. -/
theorem ExportsReceived.decode {c : Configuration} {strictness : Strictness}
    (hs : s.ExportsReceived c) (hnone : c.compression = .none)
    (hcareful : strictness.isCareful = true) (data : List UInt8) :
    (s.decode data strictness).state.ExportsReceived c := by
  obtain ⟨rfl, hreceived⟩ := hs
  have hdecode := decode_standalone hnone hcareful data
  cases hsaid : s.configuration.decodeStandalone data strictness with
  | error fault =>
    rw [hsaid] at hdecode
    rw [hdecode.2]
    exact exportsReceived_flush s
  | ok said =>
    rw [hsaid] at hdecode
    cases said with
    | none =>
      rw [hdecode.2.2]
      exact ⟨rfl, hreceived⟩
    | some a =>
      rw [hdecode.2.2]
      refine ⟨rfl, fun m hm => ⟨a, Configuration.received_of_decodeStandalone hsaid, ?_⟩⟩
      rw [metadata_adopt] at hm
      exact Option.some.inj hm

/-- So it has after any number of RPUs. -/
theorem ExportsReceived.decodeAll {c : Configuration} {inputs : List (List UInt8 × Strictness)}
    (hs : s.ExportsReceived c) (hnone : c.compression = .none)
    (hcareful : ∀ input ∈ inputs, input.2.isCareful = true) :
    (s.decodeAll inputs).ExportsReceived c := by
  induction inputs generalizing s with
  | nil => exact hs
  | cons input inputs ih =>
    obtain ⟨hfirst, hrest⟩ := List.forall_mem_cons.1 hcareful
    exact ih (hs.decode hnone hfirst input.1) hrest

/-- **What a decoder exports survives being encoded and decoded again**, whatever a careful decoder
has decoded in a stream without compression: an encoder that has seen nothing else makes a NAL unit
of it, a decoder that has seen nothing else accepts that unit and exports the same metadata, with
its blocks in their order, and so `regenerates` finds nothing lost. -/
theorem regenerates_decodeAll (enable : Enable) {configuration : Configuration}
    (hnone : configuration.compression = .none) (hprofile : configuration.profile ≠ t35Profile)
    (inputs : List (List UInt8 × Strictness))
    (hcareful : ∀ input ∈ inputs, input.2.isCareful = true) {m : Metadata}
    (hm : (decodeAll { enable, configuration } inputs).metadata = some m)
    (hfixed : m.header.coefficientType = Header.fixedPoint) :
    let decoder := decodeAll { enable, configuration } inputs
    let fresh := decoder.regenerating m.header
    ∃ nal, (fresh.encode (some m) { nal := true }).result = .ok nal ∧
      (fresh.decode (Nal.unwrap nal) (Strictness.checksum.union .explode)).result = .ok () ∧
      (fresh.decode (Nal.unwrap nal) (Strictness.checksum.union .explode)).state.metadata =
        some m ∧
      decoder.regenerates m = .ok true := by
  intro decoder fresh
  have hstart : ExportsReceived { enable, configuration } configuration :=
    exportsReceived_flush { enable, configuration }
  have hdecoded : decoder.ExportsReceived configuration := hstart.decodeAll hnone hcareful
  have hsame : decoder.configuration.profile ≠ t35Profile := by
    rwa [hdecoded.configuration]
  obtain ⟨a, ha, rfl⟩ := hdecoded.received m hm
  have hresidual : decoder.profileFor a.metadata.header = 5 →
      a.metadata.header.usesNlq = false := by
    intro hfive
    refine ha.residual ?_
    unfold profileFor at hfive ⊢
    rwa [hdecoded.configuration] at hfive
  obtain ⟨nal, hsurvives⟩ := survives_of_writable ha.isWritable (ha.isCanonical hfixed)
    (by rw [hdecoded.configuration, hnone]) hsame hresidual
  exact ⟨nal, hsurvives.encoded, hsurvives.decoded, hsurvives.exported,
    hsurvives.regenerates hsame⟩

/-- The payload of an RPU with a block of level 1 that is three bytes too long, a block of a level
that is not known, and a static block behind them. -/
def overlongPayload : List UInt8 :=
  [25, 8, 0, 8, 64, 96, 54, 80, 111, 0, 63, 248, 1, 255, 192, 15, 255, 208, 0, 0, 8, 0, 0, 6, 128,
    0, 0, 64, 0, 0, 52, 0, 0, 2, 0, 0, 1, 201, 89, 192, 0, 14, 101, 137, 89, 193, 182, 132, 71, 201,
    89, 208, 247, 0, 0, 0, 64, 0, 0, 2, 0, 0, 0, 2, 0, 0, 0, 7, 13, 136, 144, 192, 97, 130, 151,
    140, 35, 129, 69, 0, 0, 0, 105, 143, 150, 191, 255, 192, 0, 0, 0, 0, 0, 0, 0, 24, 8, 31, 115,
    128, 84, 64, 18, 2, 0, 24, 14, 12, 128, 0, 0, 10, 147, 106, 196, 131, 1, 244, 0, 0, 128, 0, 0,
    0, 0, 76, 156, 134, 15, 128]

/-- What a decoder makes of it: the static block comes first, and the unknown one is passed over. -/
def overlong : Metadata :=
  { Metadata.identity with
    blocks := [.level6 { maxLuminance := 1000, minLuminance := 1 },
      .level1 { maxPq := 3079, avgPq := 100 }] }

/-- A decoder that does not know its profile, and has refused something before, exports the blocks
of such an RPU, and they survive. -/
theorem regenerates_overlong :
    let decoder := decodeAll {} [([0x19], .careful), (overlongPayload, .careful)]
    let fresh := decoder.regenerating overlong.header
    decoder.metadata = some overlong ∧
      ∃ nal, (fresh.encode (some overlong) { nal := true }).result = .ok nal ∧
        (fresh.decode (Nal.unwrap nal) (Strictness.checksum.union .explode)).result = .ok () ∧
        (fresh.decode (Nal.unwrap nal) (Strictness.checksum.union .explode)).state.metadata =
          some overlong ∧
        decoder.regenerates overlong = .ok true := by
  have hexported : (decodeAll {} [([0x19], .careful), (overlongPayload, .careful)]).metadata =
      some overlong := by
    decide +kernel
  exact ⟨hexported, regenerates_decodeAll .off rfl (by decide) _ (by decide) hexported rfl⟩

end Stream

end DolbyVision
