/-
**Parameters that agree with the configuration.**

Configuring an encoder changes two things: the configuration of the stream, and the record of it in
the parameters.  Many things may end it early, in silence or with a fault, and it may be repeated
with other wishes.  Whatever comes first, an encoder that was configured once agrees with its
parameters from then on: either there is neither a configuration nor a record, or there is one
record, behind all other extra data, and it is read as the configuration.

Main definitions:

* `DolbyVision.Parameters.others` — extra data of other kinds;
* `DolbyVision.Configuration.RecordedIn` — parameters with one record, of a given configuration;
* `DolbyVision.Setup` — an encoder and the parameters of its stream;
* `DolbyVision.Setup.Agrees` — the two tell the same;
* `DolbyVision.Setup.settle`, `DolbyVision.Setup.settleAll` — configuring it once and repeatedly.

Main results:

* `DolbyVision.Stream.configure_cases` — the ends of a configuration;
* `DolbyVision.Setup.agrees_settle` — a configuration that succeeds makes both agree;
* `DolbyVision.Setup.settles_consistently` — **what a sequence of configurations keeps**.
-/

import DolbyVision.Proofs.Stream.Configured

set_option relaxedAutoImplicit false
set_option autoImplicit false

namespace DolbyVision

/-! ### Records in parameters -/

/-- The extra data of other kinds, in its order. -/
def Parameters.others (p : Parameters) : List ExtraData :=
  p.extraData.filter fun d => d.id != .dolbyVision

/-- A configuration such as an encoder settles is in the parameters: in one record of 24 bytes,
which stands behind all other extra data and is read as the configuration. -/
structure Configuration.RecordedIn (c : Configuration) (p : Parameters) : Prop where
  isSettled : c.IsSettled
  record : ∃ data, p.extraData = p.others ++ [⟨.dolbyVision, data⟩] ∧ data.length = 24 ∧
    Configuration.read data = .ok c

namespace Stream

variable {s : Stream} {p p' : Parameters}

/-- Recording a configuration, or that there is none, leaves extra data of other kinds alone. -/
theorem others_recordIn {c : Option Configuration} (hrecord : recordIn p c = .ok p') :
    p'.others = p.others := by
  cases c with
  | none =>
    obtain rfl := Except.ok.inj hrecord
    exact List.filter_filter.trans (by simp only [Bool.and_self]; rfl)
  | some c =>
    obtain ⟨data, -, rfl⟩ := recordIn_some_eq_ok hrecord
    have hnone : [(⟨.dolbyVision, data⟩ : ExtraData)].filter
        (fun d => d.id != .dolbyVision) = [] := rfl
    unfold Parameters.replaceExtraData Parameters.addExtraData
      Parameters.removeExtraData Parameters.others
    rw [List.filter_append, hnone, List.append_nil, List.filter_filter]
    simp only [Bool.and_self]

/-- Nothing but the records has changed. -/
theorem recordIn_eq {c : Option Configuration} (hrecord : recordIn p c = .ok p') :
    p' = { p with extraData := p'.extraData } := by
  cases c with
  | none =>
    obtain rfl := Except.ok.inj hrecord
    rfl
  | some c =>
    obtain ⟨data, -, rfl⟩ := recordIn_some_eq_ok hrecord
    rfl

/-- What was settled is read from its record, which stands behind all other extra data. -/
theorem recordedIn_recordIn {c : Configuration} (hsettled : c.IsSettled)
    (hrecord : recordIn p (some c) = .ok p') : c.RecordedIn p' where
  isSettled := hsettled
  record := by
    have hothers := others_recordIn hrecord
    obtain ⟨data, hwrite, rfl⟩ := recordIn_some_eq_ok hrecord
    obtain ⟨bytes, hwrite', hsize, -⟩ := c.exists_write
    obtain rfl := Except.ok.inj (hwrite.symm.trans hwrite')
    rw [hothers]
    exact ⟨data, rfl, hsize, Configuration.read_write hsettled.fits hwrite⟩

/-- **The ends of a configuration.**  Nothing has changed after a fault.  Otherwise what was settled
is the configuration and is recorded. -/
theorem configure_cases (s : Stream) (p : Parameters) (m : Option Metadata)
    (compression : Compression) (compliance : Compliance) :
    (∃ fault notes, s.configure p m compression compliance = ⟨.error fault, (s, p), notes⟩) ∨
    ∃ c p' notes, recordIn p c = .ok p' ∧ s.configure p m compression compliance =
        ⟨.ok (), ({ s with configuration := c.getD {} }, p'), notes⟩ ∧
      ∀ settled, c = some settled → settled.IsSettled := by
  cases hselect : s.select p (m.map Metadata.header) compression compliance #[] with
  | error fault notes => exact .inl ⟨fault, notes.toList, configure_of_fault hselect⟩
  | ok c notes =>
    obtain ⟨p', hrecord, hsettled⟩ := configure_of_select hselect
    refine .inr ⟨c, p', notes.toList, hrecord, hsettled, ?_⟩
    rintro settled rfl
    exact select_eq_ok hselect

end Stream

/-! ### Configuring repeatedly -/

/-- An encoder and the parameters of its stream. -/
abbrev Setup := Stream × Parameters

/-- What an encoder is configured from. -/
inductive Source where
  /-- From given metadata, to be compressed in a given way. -/
  | given (m : Option Metadata) (compression : Compression)
  /-- From the side data of the source. -/
  | sideData (data : List SideData)

/-- How an encoder is to be configured. -/
structure Wish where
  enable : Enable
  source : Source
  compliance : Compliance

namespace Setup

/-- Either there is neither a configuration nor a record, or the configuration is recorded. -/
def Agrees (t : Setup) : Prop :=
  (t.1.configuration = {} ∧ t.2.extraData = t.2.others) ∨ t.1.configuration.RecordedIn t.2

/-- Configures an encoder as wished. -/
def settle (t : Setup) (wish : Wish) : Outcome Setup Unit :=
  let s := { t.1 with enable := wish.enable }
  match wish.source with
  | .given m compression => s.configure t.2 m compression wish.compliance
  | .sideData data => s.configureFromSource t.2 data wish.compliance

/-- Configures an encoder again and again. -/
def settleAll (t : Setup) (wishes : List Wish) : Setup :=
  wishes.foldl (fun t wish => (t.settle wish).state) t

variable {t : Setup} {wish : Wish}

/-- The ends of a configuration, as of `Stream.configure_cases`. -/
theorem settle_cases (t : Setup) (wish : Wish) :
    (∃ fault notes, t.settle wish =
      ⟨.error fault, ({ t.1 with enable := wish.enable }, t.2), notes⟩) ∨
    ∃ c p notes, Stream.recordIn t.2 c = .ok p ∧ t.settle wish =
        ⟨.ok (), ({ t.1 with enable := wish.enable, configuration := c.getD {} }, p), notes⟩ ∧
      ∀ settled, c = some settled → settled.IsSettled := by
  unfold settle
  cases wish.source with
  | given m compression => exact Stream.configure_cases _ t.2 m compression wish.compliance
  | sideData data =>
    exact Stream.configure_cases _ t.2 (Stream.sourceMetadata data) .none wish.compliance

/-- What is settled and recorded agrees. -/
theorem agrees_recordIn (s : Stream) {p p' : Parameters} {c : Option Configuration}
    (hrecord : Stream.recordIn p c = .ok p')
    (hsettled : ∀ settled, c = some settled → settled.IsSettled) :
    Agrees ({ s with configuration := c.getD {} }, p') := by
  cases c with
  | none =>
    have hothers := Stream.others_recordIn hrecord
    obtain rfl := Except.ok.inj hrecord
    exact .inl ⟨rfl, hothers.symm⟩
  | some c => exact .inr (Stream.recordedIn_recordIn (hsettled c rfl) hrecord)

/-- A configuration that succeeds makes the encoder and the parameters agree. -/
theorem agrees_settle (hresult : (t.settle wish).result = .ok ()) :
    Agrees (t.settle wish).state := by
  rcases t.settle_cases wish with ⟨fault, notes, hsettle⟩ |
      ⟨c, p, notes, hrecord, hsettle, hsettled⟩
  · rw [hsettle] at hresult
    cases hresult
  · rw [hsettle]
    exact agrees_recordIn { t.1 with enable := wish.enable } hrecord hsettled

/-- A configuration that fails changes nothing but what was wished for. -/
theorem state_settle_of_error {fault : Fault} (hresult : (t.settle wish).result = .error fault) :
    (t.settle wish).state = ({ t.1 with enable := wish.enable }, t.2) := by
  rcases t.settle_cases wish with ⟨_, notes, hsettle⟩ | ⟨c, p, notes, -, hsettle, -⟩
  · rw [hsettle]
  · rw [hsettle] at hresult
    cases hresult

/-- An encoder that agrees with the parameters agrees after any further configuration. -/
theorem Agrees.settle (hagrees : t.Agrees) (wish : Wish) : Agrees (t.settle wish).state := by
  cases hresult : (t.settle wish).result with
  | ok _ => exact agrees_settle hresult
  | error fault =>
    rw [state_settle_of_error hresult]
    exact hagrees

theorem Agrees.settleAll (hagrees : t.Agrees) (wishes : List Wish) :
    Agrees (t.settleAll wishes) := by
  induction wishes generalizing t with
  | nil => exact hagrees
  | cons wish wishes ih => exact ih (hagrees.settle wish)

/-- From `t` to `t'` nothing but the wish, the configuration and the records have changed. -/
structure LeavesOthers (t t' : Setup) : Prop where
  stream : ∃ enable configuration, t'.1 = { t.1 with enable, configuration }
  parameters : ∃ extraData, t'.2 = { t.2 with extraData }
  others : t'.2.others = t.2.others

theorem LeavesOthers.refl (t : Setup) : t.LeavesOthers t where
  stream := ⟨_, _, rfl⟩
  parameters := ⟨_, rfl⟩
  others := rfl

theorem LeavesOthers.trans {t t' t'' : Setup} (h : t.LeavesOthers t')
    (h' : t'.LeavesOthers t'') : t.LeavesOthers t'' where
  stream := by
    obtain ⟨_, _, hstream⟩ := h.stream
    obtain ⟨enable, configuration, hstream'⟩ := h'.stream
    exact ⟨enable, configuration, by rw [hstream', hstream]⟩
  parameters := by
    obtain ⟨_, hparameters⟩ := h.parameters
    obtain ⟨extraData, hparameters'⟩ := h'.parameters
    exact ⟨extraData, by rw [hparameters', hparameters]⟩
  others := h'.others.trans h.others

/-- Configuring leaves the rest alone. -/
theorem leavesOthers_settle (t : Setup) (wish : Wish) : t.LeavesOthers (t.settle wish).state := by
  rcases t.settle_cases wish with ⟨fault, notes, hsettle⟩ |
      ⟨c, p, notes, hrecord, hsettle, -⟩
  · rw [hsettle]
    exact ⟨⟨_, _, rfl⟩, ⟨_, rfl⟩, rfl⟩
  · rw [hsettle]
    exact ⟨⟨_, _, rfl⟩, ⟨p.extraData, Stream.recordIn_eq hrecord⟩, Stream.others_recordIn hrecord⟩

theorem leavesOthers_settleAll (t : Setup) (wishes : List Wish) :
    t.LeavesOthers (t.settleAll wishes) := by
  induction wishes generalizing t with
  | nil => exact LeavesOthers.refl t
  | cons wish wishes ih => exact (t.leavesOthers_settle wish).trans (ih _)

/-- **What a sequence of configurations keeps.**  Whatever an encoder and its parameters hold at
first, and whatever it was configured for `earlier`: if it is configured once more, then

* if that succeeds, the encoder agrees with the parameters, and does so whatever comes `later`;
* if that fails, both are as they were;
* the other extra data is that of the start, and nothing else of either has changed. -/
theorem settles_consistently (t : Setup) (earlier : List Wish) (wish : Wish) :
    (((t.settleAll earlier).settle wish).result = .ok () →
      ∀ later, Agrees (((t.settleAll earlier).settle wish).state.settleAll later)) ∧
    (∀ fault, ((t.settleAll earlier).settle wish).result = .error fault →
      ((t.settleAll earlier).settle wish).state =
        ({ (t.settleAll earlier).1 with enable := wish.enable }, (t.settleAll earlier).2)) ∧
    t.LeavesOthers ((t.settleAll earlier).settle wish).state :=
  ⟨fun hresult later => (agrees_settle hresult).settleAll later,
    fun _ hresult => state_settle_of_error hresult,
    (t.leavesOthers_settleAll earlier).trans (leavesOthers_settle _ wish)⟩

/-- An encoder of HEVC whose parameters hold two stale records around other extra data. -/
def stale : Setup :=
  ({}, { Stream.screen .hevc with
    extraData := [⟨.dolbyVision, [1, 2]⟩, ⟨.hevc, [3]⟩, ⟨.dolbyVision, []⟩] })

/-- To write given metadata without compression. -/
def plainly (m : Metadata) : Wish where
  enable := .on
  source := .given (some m) .none
  compliance := .normal

/-- To write no metadata from a source that has none. -/
def silently : Wish where
  enable := .auto
  source := .sideData []
  compliance := .normal

/-- To write metadata with a compression that does not exist. -/
def wrongly : Wish where
  enable := .on
  source := .given none .reserved
  compliance := .strict

/-- One record is left of two, behind the other extra data, and a failure leaves it there; in the
end it is removed. -/
theorem settles_consistently_stale :
    ((stale.settle (plainly .identity)).state.1.configuration.profile = 8 ∧
      (stale.settle (plainly .identity)).state.1.configuration.RecordedIn
        (stale.settle (plainly .identity)).state.2) ∧
    (stale.settleAll [plainly .identity, wrongly]).2 =
      (stale.settle (plainly .identity)).state.2 ∧
    (stale.settleAll [plainly .identity, wrongly, silently]).1.configuration = {} ∧
    (stale.settleAll [plainly .identity, wrongly, silently]).2.extraData = [⟨.hevc, [3]⟩] := by
  have hprofile : (stale.settle (plainly .identity)).state.1.configuration.profile = 8 := by
    decide +kernel
  obtain ⟨hagrees, -, -⟩ := settles_consistently stale [] (plainly .identity)
  obtain ⟨-, hfault, -⟩ := settles_consistently stale [plainly .identity] wrongly
  obtain ⟨-, -, hleaves⟩ := settles_consistently stale [plainly .identity, wrongly] silently
  have hstale := hfault (.invalidArgument .reservedCompression) (by decide +kernel)
  have hkept : ((stale.settleAll [plainly .identity]).settle wrongly).state.2 =
      (stale.settleAll [plainly .identity]).2 := by rw [hstale]
  refine ⟨⟨hprofile, ?_⟩, hkept, by decide +kernel, ?_⟩
  · rcases hagrees (by decide +kernel) [] with ⟨hempty, -⟩ | hrecorded
    · change (stale.settle (plainly .identity)).state.1.configuration = {} at hempty
      rw [hempty] at hprofile
      cases hprofile
    · exact hrecorded
  · have hothers : (stale.settleAll [plainly .identity, wrongly, silently]).2.others =
        [⟨.hevc, [3]⟩] := hleaves.others
    rw [← hothers]
    decide +kernel

end Setup

end DolbyVision
