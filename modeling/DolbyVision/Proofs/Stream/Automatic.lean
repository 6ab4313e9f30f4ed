/-
**Configuring automatically.**

An encoder in automatic mode is to write metadata if it can, and to go on without if it cannot.
What may stand in the way is the codec, the enhancement layer for which the metadata was made, the
pixel format, or a color description that no compatibility mode has.  All but the first clear the
configuration in silence.  A codec of no profile is a fault even in this mode.

Main definitions:

* `DolbyVision.CodecId.IsCarrier` — the codecs that have a profile;
* `DolbyVision.Parameters.CannotCarry` — what stands in the way of metadata;
* `DolbyVision.Setup.Clears` — a configuration that ends in silence, with nothing to be written.

Main results:

* `DolbyVision.Stream.select_hindered`, `DolbyVision.Stream.select_free` — what is selected in
  automatic mode for a codec that has a profile;
* `DolbyVision.Setup.settles_automatically` — **the ends of a configuration in automatic mode**;
* `DolbyVision.Setup.not_neverFails` — it fails where it should be cleared.
-/

import DolbyVision.Proofs.Stream.Recorded

set_option relaxedAutoImplicit false
set_option autoImplicit false

namespace DolbyVision

/-- A codec that has a profile. -/
def CodecId.IsCarrier (codec : CodecId) : Prop :=
  codec = .av1 ∨ codec = .h264 ∨ codec = .hevc

/-- A stream cannot carry the metadata of a source with a given header. -/
inductive Parameters.CannotCarry (p : Parameters) (header : Option Header)
    (compliance : Compliance) : Prop where
  /-- No profile has its codec. -/
  | codec (hcodec : ¬ p.codec.IsCarrier)
  /-- The metadata is that of a base layer with an enhancement layer. -/
  | layered {profile : UInt8} (hcandidate : p.candidateProfile header = some profile)
      (hlayered : profile = 4 ∨ profile = 7)
  /-- Its pixel format is not that of the profile, and that is not to be overlooked. -/
  | format {profile : UInt8} (hcandidate : p.candidateProfile header = some profile)
      (hcompliance : .unofficial < compliance)
      (hformat : p.pixelFormat ≠ some (requiredFormat profile))
  /-- The profile is not known, or has no compatibility mode for its colors. -/
  | compatibility {profile : UInt8} (hcandidate : p.candidateProfile header = some profile)
      (hunknown : p.compatibility profile header = none)

/-- A configuration ends in silence, with an empty configuration and no record of one. -/
structure Setup.Clears (t : Setup) (ended : Outcome Setup Unit) : Prop where
  result : ended.result = .ok ()
  stream : ended.state.1 = { t.1 with configuration := {} }
  parameters : ended.state.2 = { t.2 with extraData := t.2.others }
  unrecorded : ∀ d ∈ ended.state.2.extraData, d.id ≠ .dolbyVision

namespace Parameters

variable {p : Parameters} {header : Option Header}

/-- The codecs that have a profile are those for which one is suggested. -/
theorem candidateProfile_eq_none_iff :
    p.candidateProfile header = none ↔ ¬ p.codec.IsCarrier := by
  unfold candidateProfile CodecId.IsCarrier
  constructor
  · intro hnone hcarrier
    split at hnone
    · cases hnone
    · case isFalse hav1 =>
      split at hnone
      · cases hnone
      · case isFalse hh264 =>
        have hhevc : p.codec = .hevc := (hcarrier.resolve_left hav1).resolve_left hh264
        rw [if_pos hhevc] at hnone
        cases header with
        | some header => cases hnone
        | none =>
          dsimp only at hnone
          split at hnone <;> cases hnone
  · intro hcodec
    rw [not_or, not_or] at hcodec
    rw [if_neg hcodec.1, if_neg hcodec.2.1, if_neg hcodec.2.2]

/-- There is no compatibility without a profile. -/
theorem compatibility_zero : p.compatibility 0 header = none := rfl

/-- The profile that is taken: the suggested one, or none if the pixel format does not suit it. -/
def takenProfile (p : Parameters) (candidate : UInt8) (compliance : Compliance) : UInt8 :=
  if compliance ≤ .unofficial ∨ p.pixelFormat = some (requiredFormat candidate) then candidate
  else 0

end Parameters

namespace Stream

variable {s : Stream} {p : Parameters} {header : Header} {compliance : Compliance}
  {candidate : UInt8} {notes : Array Note}

/-! ### Below strict compliance -/

/-- A level is found for every stream unless the standards are to be followed strictly. -/
theorem selectLevel_of_lt (hcompliance : compliance < .strict) (p : Parameters)
    (notes : Array Note) :
    ∃ level notes', selectLevel p compliance notes = .ok level notes' := by
  have htolerant : ¬ .strict ≤ compliance := Int.not_le.2 hcompliance
  unfold selectLevel
  cases levelFor (p.width.getD 0).toNat p.samplesPerSecond with
  | some level => exact ⟨UInt8.ofNat level, notes, rfl⟩
  | none =>
    dsimp only
    rw [if_neg htolerant]
    exact ⟨_, _, rfl⟩

/-- Once profile and compatibility are known, nothing else stands in the way. -/
theorem selectConfiguration_of_lt (hcompliance : compliance < .strict) (p : Parameters)
    (profile id : UInt8) (notes : Array Note) :
    ∃ c notes', selectConfiguration p profile id .none compliance notes = .ok c notes' := by
  obtain ⟨level, notes₁, hlevel⟩ := selectLevel_of_lt hcompliance p notes
  have hcompression : checkCompression profile .none compliance notes = .ok () notes := rfl
  unfold selectConfiguration
  rw [Run.bind_ok hcompression, Run.bind_ok hlevel]
  exact ⟨_, _, rfl⟩

/-! ### Selecting automatically -/

theorem select_none (hauto : s.enable = .auto) :
    s.select p none .none compliance notes = .ok none notes := by
  rw [select, if_pos (.inr ⟨hauto, rfl⟩)]
  rfl

theorem select_unsuitable (hauto : s.enable = .auto)
    (hcandidate : p.candidateProfile (some header) = none) :
    s.select p (some header) .none compliance notes =
      .error (.invalidArgument .unsuitableCodec) notes := by
  rw [select, if_neg (by simp [hauto]), if_neg Compression.noConfusion, hcandidate]
  rfl

/-- What is selected in automatic mode once a profile is suggested. -/
theorem select_candidate (hauto : s.enable = .auto)
    (hcandidate : p.candidateProfile (some header) = some candidate) :
    s.select p (some header) .none compliance notes =
      (if p.takenProfile candidate compliance = 4 ∨ p.takenProfile candidate compliance = 7 then
        pure none
      else
        match p.compatibility (p.takenProfile candidate compliance) (some header) with
        | none => pure none
        | some id =>
          some <$> selectConfiguration p (p.takenProfile candidate compliance) id .none
            compliance : Selection (Option Configuration)) notes := by
  have hon : s.enable ≠ .on := by simp [hauto]
  rw [select, if_neg (by simp [hauto]), if_neg Compression.noConfusion, hcandidate]
  simp only [if_neg hon]
  rfl

/-- Whatever stands in the way of a stream of a suitable codec, nothing is to be written. -/
theorem select_hindered (hauto : s.enable = .auto)
    (hcandidate : p.candidateProfile (some header) = some candidate)
    (hcannot : p.CannotCarry (some header) compliance) :
    s.select p (some header) .none compliance notes = .ok none notes := by
  rw [select_candidate hauto hcandidate]
  -- A profile that is taken is the suggested one and is layered or has no compatibility; where none
  -- is taken there is no compatibility either.
  have hends : (p.takenProfile candidate compliance = 4 ∨ p.takenProfile candidate compliance = 7) ∨
      p.compatibility (p.takenProfile candidate compliance) (some header) = none := by
    by_cases hsuits : compliance ≤ .unofficial ∨
        p.pixelFormat = some (Parameters.requiredFormat candidate)
    · rw [Parameters.takenProfile, if_pos hsuits]
      cases hcannot with
      | codec hcodec =>
        rw [Parameters.candidateProfile_eq_none_iff.2 hcodec] at hcandidate
        cases hcandidate
      | layered hcandidate' hlayered =>
        cases hcandidate.symm.trans hcandidate'
        exact .inl hlayered
      | format hcandidate' hcompliance hformat =>
        cases hcandidate.symm.trans hcandidate'
        rcases hsuits with hlenient | hsuits
        · exact absurd (Int.lt_of_lt_of_le hcompliance hlenient) (Int.lt_irrefl _)
        · exact absurd hsuits hformat
      | compatibility hcandidate' hunknown =>
        cases hcandidate.symm.trans hcandidate'
        exact .inr hunknown
    · rw [Parameters.takenProfile, if_neg hsuits]
      exact .inr Parameters.compatibility_zero
  by_cases hlayered : p.takenProfile candidate compliance = 4 ∨
      p.takenProfile candidate compliance = 7
  · rw [if_pos hlayered]
    rfl
  · rw [if_neg hlayered, hends.resolve_left hlayered]
    rfl

/-- If nothing stands in the way, a configuration is selected. -/
theorem select_free (notes : Array Note) (hauto : s.enable = .auto)
    (hcompliance : compliance < .strict) (hcan : ¬ p.CannotCarry (some header) compliance) :
    ∃ c notes', s.select p (some header) .none compliance notes = .ok (some c) notes' := by
  cases hcandidate : p.candidateProfile (some header) with
  | none => exact absurd (.codec (Parameters.candidateProfile_eq_none_iff.1 hcandidate)) hcan
  | some candidate =>
    have hsuits : compliance ≤ .unofficial ∨
        p.pixelFormat = some (Parameters.requiredFormat candidate) := by
      by_contra hunsuited
      rw [not_or] at hunsuited
      exact hcan (.format hcandidate (Int.not_le.1 hunsuited.1) hunsuited.2)
    have htaken : p.takenProfile candidate compliance = candidate := by
      rw [Parameters.takenProfile, if_pos hsuits]
    have hlayered : ¬ (candidate = 4 ∨ candidate = 7) := fun h => hcan (.layered hcandidate h)
    cases hid : p.compatibility candidate (some header) with
    | none => exact absurd (.compatibility hcandidate hid) hcan
    | some id =>
      obtain ⟨c, notes', hselect⟩ := selectConfiguration_of_lt hcompliance p candidate id notes
      refine ⟨c, notes', ?_⟩
      rw [select_candidate hauto hcandidate, htaken, if_neg hlayered, hid]
      exact Run.bind_ok hselect

end Stream

/-! ### Configuring automatically -/

namespace Setup

variable {t : Setup} {source : Option Metadata} {compliance : Compliance}

/-- A selection of nothing clears the configuration. -/
theorem clears_of_select
    (hselect : t.1.select t.2 (source.map Metadata.header) .none compliance #[] = .ok none #[]) :
    t.Clears (t.1.configure t.2 source .none compliance) := by
  obtain ⟨p', hrecord, hsettled⟩ := Stream.configure_of_select hselect
  obtain rfl := Except.ok.inj hrecord
  rw [hsettled]
  refine ⟨rfl, rfl, rfl, fun d hd => ?_⟩
  simpa using (List.mem_filter.1 hd).2

/-- A source without metadata leaves nothing to be written. -/
theorem clears_without (hauto : t.1.enable = .auto) :
    t.Clears (t.1.configure t.2 none .none compliance) :=
  clears_of_select (Stream.select_none hauto)

/-- Nor does anything that stands in the way of a stream of a suitable codec. -/
theorem clears_hindered {m : Metadata} (hauto : t.1.enable = .auto)
    (hcarrier : t.2.codec.IsCarrier) (hcannot : t.2.CannotCarry (some m.header) compliance) :
    t.Clears (t.1.configure t.2 (some m) .none compliance) := by
  cases hcandidate : t.2.candidateProfile (some m.header) with
  | none => exact absurd hcarrier (Parameters.candidateProfile_eq_none_iff.1 hcandidate)
  | some candidate => exact clears_of_select (Stream.select_hindered hauto hcandidate hcannot)

/-- A codec of no profile is a fault. -/
theorem configure_unsuitable {m : Metadata} (hauto : t.1.enable = .auto)
    (hcarrier : ¬ t.2.codec.IsCarrier) :
    t.1.configure t.2 (some m) .none compliance =
      ⟨.error (.invalidArgument .unsuitableCodec), t, []⟩ := by
  have hselect : t.1.select t.2 (some m.header) .none compliance #[] =
      .error (.invalidArgument .unsuitableCodec) #[] :=
    Stream.select_unsuitable hauto (Parameters.candidateProfile_eq_none_iff.2 hcarrier)
  exact Stream.configure_of_fault hselect

/-- If nothing stands in the way, the configuration is settled and recorded. -/
theorem configure_free {m : Metadata} (hauto : t.1.enable = .auto)
    (hcompliance : compliance < .strict)
    (hcan : ¬ t.2.CannotCarry (some m.header) compliance) :
    (t.1.configure t.2 (some m) .none compliance).result = .ok () ∧
    (t.1.configure t.2 (some m) .none compliance).state.1.configuration.RecordedIn
      (t.1.configure t.2 (some m) .none compliance).state.2 := by
  obtain ⟨c, notes, hselect⟩ := Stream.select_free #[] hauto hcompliance hcan
  obtain ⟨p', hrecord, hsettled⟩ := Stream.configure_of_select (m := some m) hselect
  rw [hsettled]
  exact ⟨rfl, Stream.recordedIn_recordIn (Stream.select_eq_ok hselect) hrecord⟩

/-- **The ends of a configuration in automatic mode**, below strict compliance and without
compression, from any encoder and any parameters:

* it fails exactly if there is metadata and the codec has no profile; nothing has changed then;
* without metadata, and where a stream of a suitable codec cannot carry it, the configuration is
  cleared and no record is left;
* otherwise a configuration is settled and recorded. -/
theorem settles_automatically (t : Setup) (hauto : t.1.enable = .auto)
    (hcompliance : compliance < .strict) (source : Option Metadata) :
    ((t.1.configure t.2 source .none compliance).result = .ok () ↔
      source = none ∨ t.2.codec.IsCarrier) ∧
    (source ≠ none → ¬ t.2.codec.IsCarrier →
      t.1.configure t.2 source .none compliance =
        ⟨.error (.invalidArgument .unsuitableCodec), t, []⟩) ∧
    (source = none ∨ t.2.codec.IsCarrier ∧
        t.2.CannotCarry (source.map Metadata.header) compliance →
      t.Clears (t.1.configure t.2 source .none compliance)) ∧
    (source ≠ none → ¬ t.2.CannotCarry (source.map Metadata.header) compliance →
      (t.1.configure t.2 source .none compliance).result = .ok () ∧
      (t.1.configure t.2 source .none compliance).state.1.configuration.RecordedIn
        (t.1.configure t.2 source .none compliance).state.2) := by
  cases source with
  | none =>
    have hclears : t.Clears (t.1.configure t.2 none .none compliance) := clears_without hauto
    exact ⟨iff_of_true hclears.result (.inl rfl), fun h => absurd rfl h, fun _ => hclears,
      fun h => absurd rfl h⟩
  | some m =>
    simp only [reduceCtorEq, false_or, ne_eq, not_false_eq_true, true_implies, Option.map_some]
    refine ⟨⟨fun hresult => ?_, fun hcarrier => ?_⟩, configure_unsuitable hauto,
      fun h => clears_hindered hauto h.1 h.2, configure_free hauto hcompliance⟩
    · by_contra hcarrier
      rw [configure_unsuitable hauto hcarrier] at hresult
      cases hresult
    · by_cases hcannot : t.2.CannotCarry (some m.header) compliance
      · exact (clears_hindered hauto hcarrier hcannot).result
      · exact (configure_free hauto hcompliance hcannot).1

/-- An encoder in automatic mode for pictures in a given codec and format, whose parameters hold a
stale record. -/
def automatic (codec : CodecId) (format : PixelFormat) : Setup :=
  ({ enable := .auto }, { Stream.screen codec with
    pixelFormat := some format
    extraData := [⟨.dolbyVision, [1, 2]⟩, ⟨.hevc, [3]⟩] })

/-- HEVC of ten bits is configured, of eight bits it is cleared, and VP9 is refused. -/
theorem settles_automatically_screen :
    ((automatic .hevc .yuv420p10).1.configure (automatic .hevc .yuv420p10).2 (some .identity) .none
        .normal).state.1.configuration.profile = 8 ∧
    (automatic .hevc .yuv420p).Clears ((automatic .hevc .yuv420p).1.configure
      (automatic .hevc .yuv420p).2 (some .identity) .none .normal) ∧
    ((automatic .vp9 .yuv420p10).1.configure (automatic .vp9 .yuv420p10).2 (some .identity) .none
        .normal).result = .error (.invalidArgument .unsuitableCodec) := by
  have hlenient : Compliance.normal < .strict := by decide
  obtain ⟨-, -, hclears, -⟩ :=
    settles_automatically (automatic .hevc .yuv420p) rfl hlenient (some .identity)
  obtain ⟨-, hrefused, -, -⟩ :=
    settles_automatically (automatic .vp9 .yuv420p10) rfl hlenient (some .identity)
  refine ⟨by decide +kernel, hclears (.inr ⟨.inr (.inr rfl), ?_⟩), ?_⟩
  · have hcandidate : (automatic .hevc .yuv420p).2.candidateProfile
        ((some Metadata.identity).map Metadata.header) = some 8 := by decide +kernel
    exact .format hcandidate (by decide) (by decide)
  · have hvp9 : ¬ (automatic .vp9 .yuv420p10).2.codec.IsCarrier := by
      unfold CodecId.IsCarrier
      decide
    rw [hrefused (by simp) hvp9]

/-- In automatic mode a configuration never fails, and is cleared wherever there is no metadata or
the stream cannot carry it. -/
def NeverFails : Prop :=
  ∀ (t : Setup) (source : Option Metadata) (compliance : Compliance), t.1.enable = .auto →
    compliance < .strict →
    (t.1.configure t.2 source .none compliance).result = .ok () ∧
    (source = none ∨ t.2.CannotCarry (source.map Metadata.header) compliance →
      t.Clears (t.1.configure t.2 source .none compliance))

/-- VP9 has no profile, and is refused where the configuration should be cleared. -/
theorem not_neverFails : ¬ NeverFails := by
  intro hnever
  obtain ⟨hresult, -⟩ :=
    hnever (automatic .vp9 .yuv420p10) (some .identity) .normal rfl (by decide)
  exact absurd hresult (by decide +kernel)

end Setup

end DolbyVision
