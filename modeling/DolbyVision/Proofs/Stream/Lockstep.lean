/-
**Encoder and decoder in lockstep.**

The two ends of a link start empty and with one configuration.  Whatever the encoder goes on to
write, and whenever it forgets what it has sent, the decoder has what the RPUs refer to, so every
RPU is delivered faithfully.  The one exception are RPUs that do not fit in the containers of their
profile: the writer of a container takes more bytes than its reader.

Main definitions:

* `DolbyVision.EncoderStep.IsCanonical` — a step whose metadata an RPU of the stream can carry;
* `DolbyVision.Link.InStep` — the decoder shares what the encoder may refer to.

Main results:

* `DolbyVision.Link.InStep.flush`, `DolbyVision.Link.InStep.encode` — the steps of an encoder keep
  the ends in step;
* `DolbyVision.Link.InStep.transcript` — **a link whose ends are in step delivers everything
  faithfully**, exactly if the RPUs fit in their containers;
* `DolbyVision.Link.lockstep` — the same of a link whose ends start empty.
-/

import DolbyVision.Proofs.Stream.Link

set_option relaxedAutoImplicit false
set_option autoImplicit false

namespace DolbyVision

open Bits DolbyVision.Stream

/-- A step whose metadata an RPU of a stream of the given profile can carry: canonical metadata and,
in profile 5, without a residual. -/
def EncoderStep.IsCanonical (profile : UInt8) : EncoderStep → Prop
  | .flush => True
  | .encode m _ => m.IsCanonical ∧ (profile = 5 → m.header.disableResidual = true)

/-- A careful decoder refuses compression in the profiles below 8. -/
def Configuration.Suits (c : Configuration) (strictness : Strictness) : Prop :=
  strictness.isCareful = true → c.compression = .none ∨ 8 ≤ c.profile

/-- A decoder that looks for nothing suits every configuration. -/
theorem Configuration.suits_none (c : Configuration) : c.Suits .none := by
  intro hcareful
  cases hcareful

/-- A configuration permits what an encoder of the same configuration plans, if metadata of profile
5 has no residual. -/
theorem Stream.permits_of_plans {e d : Stream} {m : Metadata} {options : EncodeOptions} {p : Plan}
    {strictness : Strictness} (hplans : e.Plans m options p)
    (hsame : d.configuration = e.configuration) (hsuits : e.configuration.Suits strictness)
    (hresidual : e.configuration.profile = 5 → m.header.disableResidual = true) :
    d.Permits p strictness where
  profile := by
    rw [hsame]
    exact hplans.profile
  compresses := by
    unfold compresses
    rw [hsame, hplans.configured]
  residual := by
    intro hfive
    rw [hsame] at hfive
    rw [hplans.metadata, Header.usesNlq, hresidual hfive]
    rfl
  careful := by
    intro hcareful hon
    rw [hsame]
    rcases hsuits hcareful with hnone | hprofile
    · rw [compresses, hsame, hnone] at hon
      cases hon
    · exact hprofile

namespace Link

variable {l : Link} {strictness : Strictness} {m : Metadata} {compress : Bool} {p : Plan}

/-- The decoder shares what the encoder may refer to. -/
structure InStep (l : Link) : Prop where
  mappings : l.decoder.SharesMappings l.encoder
  color : l.decoder.SharesColor l.encoder

/-- An encoder that forgets what it has sent refers to nothing. -/
theorem InStep.flush (hl : l.InStep) : InStep { l with encoder := l.encoder.flush } where
  mappings := sharesMappings_flush hl.mappings.configuration
  color := sharesColor_flush

/-- Ends that are in step accept an RPU that fits in its container, and are in step after it. -/
theorem InStep.encode {rpu wrapped : List UInt8} (hl : l.InStep)
    (hplans : l.encoder.Plans m (l.encoder.wrapping compress) p) (hrpu : p.rpu = .ok rpu)
    (hwrap : (l.encoder.wrapping compress).wrap rpu = .ok wrapped)
    (hsuits : l.encoder.configuration.Suits strictness)
    (hstep : (EncoderStep.encode m compress).IsCanonical l.encoder.configuration.profile)
    (hcarries : l.encoder.Carries rpu.length) :
    (l.delivered strictness p rpu wrapped).IsFaithful ∧
      InStep ⟨l.encoder.commit p, (l.decoder.decodeWrapped wrapped strictness).state⟩ := by
  have hpermits := permits_of_plans hplans hl.mappings.configuration hsuits hstep.2
  have haccepts := accepts_of_shares hplans hpermits hl.mappings fun _ => hl.color
  have hdecoded := decodeWrapped_of_accepts hplans.valid hrpu hwrap hl.mappings.configuration
    hcarries haccepts
  refine ⟨faithful_of_shares hplans hstep.1 hdecoded hl.mappings fun _ => hl.color, ?_⟩
  rw [hdecoded]
  exact ⟨hl.mappings.next hplans hstep.1,
    SharesColor.next hplans hstep.1 (fun _ => hl.color) fun _ => hl.color⟩

/-- **A link whose ends are in step delivers everything faithfully**, exactly if the RPUs fit in
their containers. -/
theorem InStep.transcript {steps : List EncoderStep} (hl : l.InStep)
    (hsuits : l.encoder.configuration.Suits strictness)
    (hsteps : ∀ step ∈ steps, step.IsCanonical l.encoder.configuration.profile) :
    (∀ delivery ∈ l.transcript strictness steps, delivery.IsFaithful) ↔
      ∀ delivery ∈ l.transcript strictness steps, l.encoder.Carries delivery.size := by
  induction steps generalizing l with
  | nil => simp [Link.transcript]
  | cons step steps ih =>
    obtain ⟨hstep, hrest⟩ := List.forall_mem_cons.1 hsteps
    cases step with
    | flush => exact ih hl.flush hsuits hrest
    | encode m compress =>
      rw [transcript_cons]
      rcases l.step_encode strictness m compress with hfails | hwrites
      · rw [hfails]
        exact ih hl hsuits hrest
      · obtain ⟨p, rpu, wrapped, hplans, hrpu, hwrap, hsent⟩ := hwrites
        have hconfiguration : (l.encoder.commit p).configuration = l.encoder.configuration := by
          rw [commit_eq]
        rw [hsent, Option.toList_some, List.singleton_append, List.forall_mem_cons,
          List.forall_mem_cons]
        -- An RPU that is too large refutes both sides, so nothing need be known of the rest.
        by_cases hcarries : l.encoder.Carries rpu.length
        · obtain ⟨hfaithful, hnext⟩ := hl.encode hplans hrpu hwrap hsuits hstep hcarries
          have htail := ih hnext (by rwa [hconfiguration]) (by rwa [hconfiguration])
          have hsame (size : Nat) :
              (l.encoder.commit p).Carries size ↔ l.encoder.Carries size := by
            unfold Carries
            rw [hconfiguration]
          simp only [hsame] at htail
          exact and_congr (iff_of_true hfaithful hcarries) htail
        · have hrefused : ¬ (l.delivered strictness p rpu wrapped).IsFaithful :=
            not_faithful_of_large hwrap hl.mappings.configuration hcarries
          exact iff_of_false (fun h => hrefused h.1) fun h => hcarries h.1

/-- In a stream whose RPUs come in NAL units everything is delivered faithfully. -/
theorem InStep.faithful {steps : List EncoderStep} (hl : l.InStep)
    (hsuits : l.encoder.configuration.Suits strictness)
    (hnal : l.encoder.configuration.profile ≠ t35Profile)
    (hsteps : ∀ step ∈ steps, step.IsCanonical l.encoder.configuration.profile) :
    ∀ delivery ∈ l.transcript strictness steps, delivery.IsFaithful :=
  (hl.transcript hsuits hsteps).2 fun _ _ ht35 => absurd ht35 hnal

/-- A link whose ends are empty and have the given configuration. -/
def ofConfiguration (c : Configuration) : Link :=
  ⟨{ configuration := c }, { configuration := c }⟩

theorem inStep_ofConfiguration (c : Configuration) : (ofConfiguration c).InStep where
  mappings := ⟨rfl, fun _ _ hslot => hslot⟩
  color := ⟨fun _ hlast => hlast, fun _ => rfl⟩

/-- **Encoder and decoder in lockstep.**  The ends of a link start empty and with one configuration,
and the encoder takes any steps with canonical metadata.  Every RPU that it writes is accepted, and
both ends then export the metadata that was sent, exactly if no RPU in a T.35 message is larger than
the reader of its container permits. -/
theorem lockstep {c : Configuration} {steps : List EncoderStep} (hsuits : c.Suits strictness)
    (hsteps : ∀ step ∈ steps, step.IsCanonical c.profile) :
    (∀ delivery ∈ (ofConfiguration c).transcript strictness steps, delivery.IsFaithful) ↔
      ∀ delivery ∈ (ofConfiguration c).transcript strictness steps,
        c.profile = t35Profile → delivery.size ≤ T35.maxPayload :=
  (inStep_ofConfiguration c).transcript hsuits hsteps

/-- Metadata with a color description of its own. -/
def colored : Metadata :=
  { Metadata.identity with color := { SourceColor.assumed with maxPq := 3079 } }

theorem isCanonical_colored : colored.IsCanonical := by
  refine Metadata.isCanonical_identity ?_ (fun _ hb => absurd hb List.not_mem_nil) List.Pairwise.nil
  exact ⟨by decide, by decide, by decide, by decide, by decide, by decide, by decide⟩

/-- Three RPUs of profile 10, of which the second one refers to the first and the last one to
nothing, are delivered faithfully. -/
theorem lockstep_colored :
    ((ofConfiguration { profile := t35Profile, compression := .limited }).transcript .none
        [.encode colored false, .encode colored true, .flush, .encode colored true]).length = 3 ∧
      ∀ delivery ∈ (ofConfiguration { profile := t35Profile, compression := .limited }).transcript
        .none [.encode colored false, .encode colored true, .flush, .encode colored true],
        delivery.IsFaithful := by
  refine ⟨by decide +kernel, ?_⟩
  have hstep (compress : Bool) : (EncoderStep.encode colored compress).IsCanonical t35Profile :=
    ⟨isCanonical_colored, fun hfive => absurd hfive (by decide)⟩
  refine (lockstep (Configuration.suits_none _) ?_).2 ?_
  · simp only [List.forall_mem_cons]
    exact ⟨hstep false, hstep true, trivial, hstep true, fun _ hmem => absurd hmem List.not_mem_nil⟩
  · have hsizes : ((ofConfiguration { profile := t35Profile, compression := .limited }).transcript
        .none [.encode colored false, .encode colored true, .flush, .encode colored true]).all
          (fun delivery => decide (delivery.size ≤ T35.maxPayload)) = true := by
      decide +kernel
    intro delivery hmem _
    exact of_decide_eq_true (List.all_eq_true.1 hsizes delivery hmem)

/-- Metadata with as many trims of all hues as an RPU can hold. -/
def trimmed : Metadata :=
  { Metadata.identity with
    blocks := List.replicate BlockSet.maxDynamic
      (.level8 { targetDisplayIndex := 1, hueVectorField := Vector.replicate 6 1 }) }

theorem isCanonical_trimmed : trimmed.IsCanonical := by
  refine Metadata.isCanonical_identity SourceColor.fits_assumed ?_ ?_
  · intro b hb
    rw [List.eq_of_mem_replicate hb]
    exact ⟨by decide, by decide, by decide, by decide, by decide, by decide, by decide, by decide⟩
  · exact List.pairwise_replicate.2 (Or.inr ⟨id, fun _ => id⟩)

/-- What an encoder without compression plans for that metadata. -/
def trimmedPlan : Plan where
  metadata := trimmed
  id := ⟨0, Nat.zero_lt_succ _⟩
  blocks := { dynamic := trimmed.blocks }
  compression := .none
  configured := .none
  reuses := false
  hasColor := true
  compressed := false

/-- An RPU with that metadata has 786 bytes. -/
theorem exists_trimmed_rpu : ∃ rpu, trimmedPlan.rpu = .ok rpu ∧ rpu.length = 786 := by
  have hwritten : (trimmedPlan.put .empty).toOption.isSome = true := by decide +kernel
  have hstart : (trimmedPlan.withoutSecond.put .empty).toOption.map Writer.bitsWritten =
      some 800 := by decide +kernel
  have hbits : ((trimmedPlan.sentBlocks .second).map BlockGroup.codedBits).sum = 5425 := by
    decide +kernel
  have hcount : (unsignedCodeBits (trimmedPlan.sentBlocks .second).length).length = 9 := by
    decide +kernel
  -- Only the part in front of the second group is written out; the rest is counted.
  obtain ⟨w, hput⟩ := Checked.exists_ok hwritten
  obtain ⟨w₁, hfirst, hsecond⟩ := Plan.put_second rfl (by decide +kernel) hput
  rw [hfirst] at hstart
  have hlength : w₁.written.length = 800 := by
    rw [Writer.length_written]
    exact Option.some.inj hstart
  have hgroup := BlockGroup.length_put hsecond
  obtain ⟨body, hfinish, -⟩ := w.exists_finish
  have hrpu := Plan.length_attach hfinish
  rw [hlength, hcount, hbits] at hgroup
  refine ⟨_, Plan.rpu_eq hput hfinish, ?_⟩
  unfold rpuBits padding Tail.size at hrpu
  unfold padding at hgroup
  omega

/-- **An encoder of profile 10 writes an RPU that its own decoder refuses**: it wraps more than a
decoder takes out of a container. -/
theorem not_lockstep :
    ¬ ∀ steps : List EncoderStep, (∀ step ∈ steps, step.IsCanonical t35Profile) →
      ∀ delivery ∈ (ofConfiguration { profile := t35Profile }).transcript .none steps,
        delivery.IsFaithful := by
  intro hclaim
  obtain ⟨rpu, hrpu, hlength⟩ := exists_trimmed_rpu
  let l := ofConfiguration { profile := t35Profile }
  have hplan : l.encoder.plan trimmed (l.encoder.wrapping false) = .ok trimmedPlan := by
    decide +kernel
  have hwrap : (l.encoder.wrapping false).wrap rpu = .ok (T35.message rpu) :=
    T35.wrap_of_le (by rw [hlength]; decide)
  have hlarge : ¬ l.encoder.Carries rpu.length := by
    intro hcarries
    have hle := hcarries rfl
    rw [hlength] at hle
    exact absurd hle (by decide)
  have hstep : ∀ step ∈ [EncoderStep.encode trimmed false], step.IsCanonical t35Profile := by
    rw [List.forall_mem_singleton]
    exact ⟨isCanonical_trimmed, by decide⟩
  have hrefused : ¬ (l.delivered .none trimmedPlan rpu (T35.message rpu)).IsFaithful :=
    not_faithful_of_large hwrap rfl hlarge
  refine hrefused (hclaim _ hstep _ ?_)
  rw [transcript_cons, step_of_plan hplan hrpu hwrap]
  exact List.mem_cons_self

end Link

end DolbyVision
