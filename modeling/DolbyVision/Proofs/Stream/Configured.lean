/-
**What an encoder writes as it was configured.**

An encoder that settles its configuration records it in the parameters of the stream.  A decoder
that takes its configuration from there reads what the encoder writes first, with two exceptions
that the encoder does not check: RPUs of profile 5 with a residual, and RPUs of profile 10 that do
not fit in the containers that a decoder accepts.

Main definitions:

* `DolbyVision.Configuration.IsSettled` — a configuration such as an encoder settles.

Main results:

* `DolbyVision.Stream.select_eq_ok` — **the configurations that are settled**;
* `DolbyVision.Stream.configure_eq_ok` — the record of the configuration is found in the parameters;
* `DolbyVision.Stream.decode_first` — **the first RPU of a stream is accepted** exactly if it keeps
  to its profile and fits in its container;
* `DolbyVision.Stream.accepts_configured` — the same of an encoder that was configured and a decoder
  that takes its configuration from the parameters.
-/

import DolbyVision.Proofs.Configuration.Record
import DolbyVision.Proofs.Stream.Lockstep
import DolbyVision.Stream.Configure

set_option relaxedAutoImplicit false
set_option autoImplicit false

namespace DolbyVision

open Bits

/-! ### Configurations that are settled -/

/-- A configuration such as an encoder settles. -/
structure Configuration.IsSettled (c : Configuration) : Prop where
  profile : c.profile = 5 ∨ c.profile = 8 ∨ c.profile = 10
  /-- One of the thirteen levels. -/
  level : 1 ≤ c.level.toNat ∧ c.level.toNat ≤ levels.length
  rpuPresent : c.rpuPresent = true
  compatibilityId : c.compatibilityId.toNat < 2 ^ 4

/-- The fields of such a configuration fit in a record. -/
theorem Configuration.IsSettled.fits {c : Configuration} (h : c.IsSettled) : c.Fits where
  profile := by
    rcases h.profile with hprofile | hprofile | hprofile <;> rw [hprofile] <;> decide
  level := Nat.lt_of_le_of_lt h.level.2 (by decide)
  compatibilityId := h.compatibilityId

namespace Stream

variable {s : Stream} {p : Parameters} {header : Option Header} {compression : Compression}
  {compliance : Compliance} {notes notes' : Array Note} {c : Configuration}

/-- There is a compatibility for three profiles only, and it is one of those that there are. -/
theorem compatibility_eq_some {profile id : UInt8} (h : p.compatibility profile header = some id) :
    (profile = 5 ∨ profile = 8 ∨ profile = 10) ∧ id.toNat < 2 ^ 4 := by
  unfold Parameters.compatibility at h
  split at h
  · case isTrue hfive =>
    cases h
    exact ⟨.inl hfive, by decide⟩
  split at h
  · case isTrue hten =>
    cases h
    exact ⟨.inr (.inr hten.1), by decide⟩
  split at h
  · case isTrue hcolor =>
    refine ⟨.inr hcolor, ?_⟩
    unfold Parameters.colorCompatibility at h
    split at h <;> cases h <;> decide
  · cases h

theorem levelFor_mem {width samples level : Nat} (h : levelFor width samples = some level) :
    1 ≤ level ∧ level ≤ levels.length := by
  unfold levelFor at h
  obtain ⟨index, hindex, rfl⟩ := Option.map_eq_some_iff.1 h
  obtain ⟨hlt, -⟩ := List.findIdx?_eq_some_iff_getElem.1 hindex
  omega

/-- The level of a stream is one of those that there are. -/
theorem selectLevel_mem {level : UInt8} (h : selectLevel p compliance notes = .ok level notes') :
    1 ≤ level.toNat ∧ level.toNat ≤ levels.length := by
  have hlength : levels.length = 13 := rfl
  unfold selectLevel at h
  cases hlevel : levelFor (p.width.getD 0).toNat p.samplesPerSecond with
  | some level' =>
    rw [hlevel] at h
    cases h
    have hmem := levelFor_mem hlevel
    rw [UInt8.toNat_ofNat', Nat.mod_eq_of_lt (by omega)]
    exact hmem
  | none =>
    rw [hlevel] at h
    dsimp only at h
    split at h
    · cases h
    · cases h
      decide

/-- The configuration of a stream has the profile and the compatibility that were settled. -/
theorem selectConfiguration_eq_ok {profile id : UInt8}
    (h : selectConfiguration p profile id compression compliance notes = .ok c notes') :
    c.profile = profile ∧ c.compatibilityId = id ∧ c.rpuPresent = true ∧ 1 ≤ c.level.toNat ∧
      c.level.toNat ≤ levels.length := by
  unfold selectConfiguration at h
  obtain ⟨⟨⟩, notes₁, -, h⟩ := Run.ok_of_bind h
  obtain ⟨level, notes₂, hlevel, h⟩ := Run.ok_of_bind h
  obtain ⟨⟨⟩, notes₃, -, h⟩ := Run.ok_of_bind h
  cases h
  exact ⟨rfl, rfl, rfl, selectLevel_mem hlevel⟩

/-- **The configurations that are settled.** -/
theorem select_eq_ok (h : s.select p header compression compliance notes = .ok (some c) notes') :
    c.IsSettled := by
  unfold select at h
  split at h
  · cases h
  · obtain ⟨-, h⟩ := Run.ok_of_check h
    cases hcandidate : p.candidateProfile header with
    | none =>
      rw [hcandidate] at h
      cases h
    | some candidate =>
      rw [hcandidate] at h
      dsimp only at h
      -- Whether the suggested profile is taken or none, something is settled only if there is a
      -- compatibility for it.
      generalize (if compliance ≤ .unofficial ∨
        p.pixelFormat = some (Parameters.requiredFormat candidate) then candidate else 0) =
          profile at h
      split at h
      · split at h <;> cases h
      · cases hid : p.compatibility profile header with
        | none =>
          rw [hid] at h
          dsimp only at h
          split at h <;> cases h
        | some id =>
          rw [hid] at h
          obtain ⟨c', notes₁, hselect, h⟩ := Run.ok_of_bind h
          cases h
          obtain ⟨rfl, rfl, hrpu, hlevel⟩ := selectConfiguration_eq_ok hselect
          obtain ⟨hprofile, hcompatibility⟩ := compatibility_eq_some hid
          exact ⟨hprofile, hlevel, hrpu, hcompatibility⟩

/-- What was recorded of a configuration is how it is written. -/
theorem recordIn_some_eq_ok {p' : Parameters} (h : recordIn p (some c) = .ok p') :
    ∃ data, c.write = .ok data ∧ p' = p.replaceExtraData ⟨.dolbyVision, data⟩ := by
  obtain ⟨data, hwrite, h⟩ := Checked.ok_of_bind h
  exact ⟨data, hwrite, (Except.ok.inj h).symm⟩

/-- **What was selected is recorded**, since every configuration can be written. -/
theorem configure_of_select {m : Option Metadata} {c : Option Configuration}
    (hselect : s.select p (m.map Metadata.header) compression compliance #[] = .ok c notes) :
    ∃ p', recordIn p c = .ok p' ∧ s.configure p m compression compliance =
      ⟨.ok (), ({ s with configuration := c.getD {} }, p'), notes.toList⟩ := by
  obtain ⟨p', hrecord⟩ : ∃ p', recordIn p c = .ok p' := by
    cases c with
    | none => exact ⟨_, rfl⟩
    | some c =>
      obtain ⟨data, hwrite, -⟩ := c.exists_write
      exact ⟨_, Checked.bind_ok hwrite⟩
  refine ⟨p', hrecord, ?_⟩
  unfold configure
  dsimp only
  rw [Run.bind_ok hselect, Run.bind_ok (Run.lift_ok hrecord)]
  rfl

/-- If nothing can be selected, nothing changes. -/
theorem configure_of_fault {m : Option Metadata} {fault : Fault}
    (hselect : s.select p (m.map Metadata.header) compression compliance #[] =
      .error fault notes) :
    s.configure p m compression compliance = ⟨.error fault, (s, p), notes.toList⟩ := by
  unfold configure
  dsimp only
  rw [Run.bind_error hselect]

/-- An encoder that has settled its configuration has recorded it in the parameters. -/
theorem configure_eq_ok {source : Option Metadata} {e : Stream} {p' : Parameters}
    {reported : List Note}
    (hconfigure : s.configure p source compression compliance = ⟨.ok (), (e, p'), reported⟩)
    (hpresent : e.configuration.isPresent = true) :
    e.configuration.Fits ∧ e = { s with configuration := e.configuration } ∧
      ∃ data, e.configuration.write = .ok data ∧
        p'.extraData? .dolbyVision = some ⟨.dolbyVision, data⟩ := by
  cases hselect : s.select p (source.map Metadata.header) compression compliance #[] with
  | error fault notes =>
    rw [configure_of_fault hselect] at hconfigure
    cases hconfigure
  | ok settled notes =>
    obtain ⟨recorded, hrecord, hsettled⟩ := configure_of_select hselect
    rw [hsettled] at hconfigure
    obtain ⟨-, ⟨rfl, rfl⟩, -⟩ := Outcome.mk.inj hconfigure
    cases settled with
    | none => cases hpresent
    | some c =>
      obtain ⟨data, hwrite, rfl⟩ := recordIn_some_eq_ok hrecord
      exact ⟨(select_eq_ok hselect).fits, rfl, data, hwrite, p.extraData?_replaceExtraData _⟩

/-! ### The first RPU -/

variable {e : Stream} {m : Metadata} {compress : Bool} {rpu wrapped : List UInt8} {plan : Plan}

/-- An encoder that has sent nothing refers to nothing. -/
theorem Plans.first {options : EncodeOptions} (hplans : e.Plans m options plan)
    (hslots : ∀ id, e.slot id = none) (hcolor : e.color = none) :
    plan.reuses = false ∧ plan.compressed = false := by
  constructor
  · rw [Bool.eq_false_iff]
    intro hreuses
    have hslot := hplans.slot hreuses
    rw [hslots] at hslot
    cases hslot
  · rw [Bool.eq_false_iff]
    intro hcompressed
    obtain ⟨⟨c, hlast, -⟩, -⟩ := hplans.last hcompressed
    rw [hcolor] at hlast
    cases hlast

/-- A decoder that starts accepts an RPU that refers to nothing and keeps to its profile. -/
theorem accepts_first {d : Stream} (hplans : e.Plans m (e.wrapping compress) plan)
    (hsame : d.configuration = e.configuration) (hreuses : plan.reuses = false)
    (hcompressed : plan.compressed = false)
    (hkeeps : e.configuration.profile = 5 → m.header.disableResidual = true) :
    d.Accepts plan .none where
  toPermits := permits_of_plans hplans hsame (Configuration.suits_none _) hkeeps
  slot := by
    intro h
    rw [hreuses] at h
    cases h
  color := by
    intro h
    rw [hcompressed] at h
    cases h
  room := by
    intro _
    refine receivedBlocks_withinLimits hplans.valid ?_
    unfold keptBlocks
    rw [hcompressed]
    exact Nat.zero_le _

/-- **The first RPU of a stream is accepted** exactly if it keeps to its profile and fits in its
container. -/
theorem decode_first (hplans : e.Plans m (e.wrapping compress) plan) (hrpu : plan.rpu = .ok rpu)
    (hwrap : (e.wrapping compress).wrap rpu = .ok wrapped) (hslots : ∀ id, e.slot id = none)
    (hcolor : e.color = none) :
    (({ configuration := e.configuration } : Stream).decodeWrapped wrapped .none).result = .ok () ↔
      (e.configuration.profile = 5 → m.header.disableResidual = true) ∧ e.Carries rpu.length := by
  obtain ⟨hreuses, hcompressed⟩ := hplans.first hslots hcolor
  -- Of the decoder only its configuration matters, since the RPU refers to nothing.
  generalize hd : ({ configuration := e.configuration } : Stream) = d
  have hsame : d.configuration = e.configuration := by rw [← hd]
  by_cases hcarries : e.Carries rpu.length
  · rw [and_iff_left hcarries]
    by_cases hkeeps : e.configuration.profile = 5 → m.header.disableResidual = true
    · have haccepts := accepts_first hplans hsame hreuses hcompressed hkeeps
      rw [decodeWrapped_of_accepts hplans.valid hrpu hwrap hsame hcarries haccepts]
      exact iff_of_true rfl hkeeps
    · refine iff_of_false ?_ hkeeps
      rw [Classical.not_imp, Bool.not_eq_true] at hkeeps
      obtain ⟨hfive, hresidual⟩ := hkeeps
      have huses : plan.metadata.header.usesNlq = true := by
        rw [hplans.metadata, Header.usesNlq, hresidual]
        rfl
      have hcompresses : d.compresses = (plan.configured != .none) := by
        unfold compresses
        rw [hsame, hplans.configured]
      rw [decodeWrapped_of_refuses hplans.valid hrpu hwrap hsame hcarries fun w hput =>
        refuses_residual hplans.valid (hsame ▸ hfive) huses hcompresses hput]
      intro haccepted
      cases haccepted
  · refine iff_of_false ?_ fun h => hcarries h.2
    rw [decodeWrapped_of_large hwrap hsame hcarries]
    intro haccepted
    cases haccepted

/-- **What an encoder writes as it was configured.**  A decoder that takes its configuration from
the parameters accepts what an encoder writes first, exactly if an RPU of profile 5 has no residual
and one of profile 10 is not larger than the reader of its container permits. -/
theorem accepts_configured {enable : Enable} {source : Option Metadata} {p' : Parameters}
    {reported : List Note}
    (hconfigure : ({ enable } : Stream).configure p source compression compliance =
      ⟨.ok (), (e, p'), reported⟩)
    (hpresent : e.configuration.isPresent = true)
    (hencode : (e.encode (some m) (e.wrapping compress)).result = .ok wrapped) :
    (p'.extraData? .dolbyVision).map (fun extra => Configuration.read extra.data) =
        some (.ok e.configuration) ∧
      ∃ size, (e.encode (some m) (e.wrapping compress)).notes = [.generated size] ∧
        ((({ configuration := e.configuration } : Stream).decodeWrapped wrapped .none).result =
            .ok () ↔
          (e.configuration.profile = 5 → m.header.disableResidual = true) ∧
            (e.configuration.profile = t35Profile → size ≤ T35.maxPayload)) := by
  obtain ⟨hfits, hempty, data, hwrite, hextra⟩ := configure_eq_ok hconfigure hpresent
  obtain ⟨plan, rpu, hplan, hrpu, hwrap, hencoded⟩ := encode_eq_ok hencode
  have hslots (id : Id) : e.slot id = none := by
    rw [hempty]
    exact get_empty id
  have hcolor : e.color = none := by rw [hempty]
  refine ⟨?_, rpu.length, by rw [hencoded], ?_⟩
  · rw [hextra, Option.map_some, Configuration.read_write hfits hwrite]
  · exact decode_first (plans_of_plan hplan) hrpu hwrap hslots hcolor

/-- Parameters of pictures of 1920 by 1080 samples in a given codec. -/
def screen (codec : CodecId) : Parameters where
  codec
  width := some 1920
  height := some 1080
  frameRate := some ⟨24, 1⟩
  pixelFormat := some .yuv420p10
  primaries := .bt2020
  transfer := .pq
  matrix := .bt2020Ncl

/-- What an encoder for such pictures with the given metadata is configured for. -/
def configured (codec : CodecId) (m : Metadata) : Outcome (Stream × Parameters) Unit :=
  ({ enable := .on } : Stream).configure (screen codec) (some m) .none .normal

theorem configured_eq {codec : CodecId} {m : Metadata}
    (hresult : (configured codec m).result = .ok ()) :
    ({ enable := .on } : Stream).configure (screen codec) (some m) .none .normal =
      ⟨.ok (), ((configured codec m).state.1, (configured codec m).state.2),
        (configured codec m).notes⟩ := by
  rw [← hresult]
  rfl

/-- A decoder accepts what an encoder of profile 8 writes first. -/
theorem accepts_configured_identity :
    ((configured .hevc .identity).state.1.encode (some .identity)
        ((configured .hevc .identity).state.1.wrapping true)).result.toOption.isSome = true ∧
      ∀ wrapped, ((configured .hevc .identity).state.1.encode (some .identity)
          ((configured .hevc .identity).state.1.wrapping true)).result = .ok wrapped →
        (({ configuration := (configured .hevc .identity).state.1.configuration } :
          Stream).decodeWrapped wrapped .none).result = .ok () := by
  refine ⟨by decide +kernel, fun wrapped hencode => ?_⟩
  have hresult : (configured .hevc .identity).result = .ok () := by decide +kernel
  have hprofile : (configured .hevc .identity).state.1.configuration.profile = 8 := by
    decide +kernel
  obtain ⟨-, size, -, haccepts⟩ :=
    accepts_configured (configured_eq hresult) (by decide +kernel) hencode
  refine haccepts.2 ⟨fun hfive => ?_, fun ht35 => ?_⟩
  · rw [hprofile] at hfive
    exact absurd hfive (by decide)
  · rw [hprofile] at ht35
    exact absurd ht35 (by decide)

/-- An encoder of a given profile may be configured for metadata with which it writes an RPU that
its own decoder refuses. -/
def RefusesItself (profile : UInt8) : Prop :=
  ∃ (p p' : Parameters) (m : Metadata) (e : Stream) (reported : List Note) (wrapped : List UInt8),
    ({ enable := .on } : Stream).configure p (some m) .none .normal = ⟨.ok (), (e, p'), reported⟩ ∧
      e.configuration.isPresent = true ∧ e.configuration.profile = profile ∧
      (e.encode (some m) (e.wrapping false)).result = .ok wrapped ∧
      (({ configuration := e.configuration } : Stream).decodeWrapped wrapped .none).result ≠ .ok ()

/-- Metadata of profile 5 with a residual. -/
def residual : Metadata :=
  { Metadata.identity with
    header := {
      Metadata.identity.header with
      rpuProfile := 0
      baseLayerFullRange := true
      disableResidual := false }
    mapping := { Mapping.identity with nlqMethod := some .linearDeadzone } }

/-- An encoder that was just configured has sent nothing. -/
theorem fresh_configured {codec : CodecId} {m : Metadata}
    (hresult : (configured codec m).result = .ok ())
    (hpresent : (configured codec m).state.1.configuration.isPresent = true) :
    (∀ id, (configured codec m).state.1.slot id = none) ∧
      (configured codec m).state.1.color = none := by
  obtain ⟨-, hempty, -⟩ := configure_eq_ok (configured_eq hresult) hpresent
  rw [hempty]
  exact ⟨get_empty, rfl⟩

theorem refusesItself_of_residual : RefusesItself 5 := by
  have hresult : (configured .hevc residual).result = .ok () := by decide +kernel
  have hpresent : (configured .hevc residual).state.1.configuration.isPresent = true := by
    decide +kernel
  have hprofile : (configured .hevc residual).state.1.configuration.profile = 5 := by
    decide +kernel
  have hok : ((configured .hevc residual).state.1.encode (some residual)
      ((configured .hevc residual).state.1.wrapping false)).result.toOption.isSome = true := by
    decide +kernel
  obtain ⟨hslots, hcolor⟩ := fresh_configured hresult hpresent
  obtain ⟨wrapped, hencode⟩ := Checked.exists_ok hok
  refine ⟨screen .hevc, _, residual, _, _, wrapped, configured_eq hresult, hpresent, hprofile,
    hencode, fun haccepted => ?_⟩
  obtain ⟨plan, rpu, hplan, hrpu, hwrap, -⟩ := encode_eq_ok hencode
  have hkeeps := (decode_first (plans_of_plan hplan) hrpu hwrap hslots hcolor).1 haccepted
  exact absurd (hkeeps.1 hprofile) (by decide)

theorem refusesItself_of_large : RefusesItself t35Profile := by
  have hresult : (configured .av1 Link.trimmed).result = .ok () := by decide +kernel
  have hpresent : (configured .av1 Link.trimmed).state.1.configuration.isPresent = true := by
    decide +kernel
  have hprofile : (configured .av1 Link.trimmed).state.1.configuration.profile = t35Profile := by
    decide +kernel
  have hplan : (configured .av1 Link.trimmed).state.1.plan Link.trimmed
      ((configured .av1 Link.trimmed).state.1.wrapping false) = .ok Link.trimmedPlan := by
    decide +kernel
  obtain ⟨hslots, hcolor⟩ := fresh_configured hresult hpresent
  obtain ⟨rpu, hrpu, hlength⟩ := Link.exists_trimmed_rpu
  have hwrap : ((configured .av1 Link.trimmed).state.1.wrapping false).wrap rpu =
      .ok (T35.message rpu) := by
    unfold EncodeOptions.wrap wrapping
    rw [hprofile]
    exact T35.wrap_of_le (by rw [hlength]; decide)
  refine ⟨screen .av1, _, Link.trimmed, _, _, T35.message rpu, configured_eq hresult, hpresent,
    hprofile, by rw [encode_of_plan hplan hrpu hwrap], fun haccepted => ?_⟩
  have hkeeps := (decode_first (plans_of_plan hplan) hrpu hwrap hslots hcolor).1 haccepted
  have hle := hkeeps.2 hprofile
  rw [hlength] at hle
  exact absurd hle (by decide)

/-- **An encoder may be configured for RPUs that its own decoder refuses**: those of profile 5 with
a residual, and those of profile 10 that are too large for the reader of a container. -/
theorem not_accepts_configured : RefusesItself 5 ∧ RefusesItself t35Profile :=
  ⟨refusesItself_of_residual, refusesItself_of_large⟩

end Stream

end DolbyVision
