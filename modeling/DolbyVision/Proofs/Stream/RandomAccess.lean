/-
**Joining a stream at an RPU that is not compressed.**

A decoder that starts to read a stream at an RPU without compression has its mapping, and no later
RPU refers to an earlier one.  It also has the color description, if the RPU has one.  If it has
none, the encoder still refers to the last description that it has sent, which the decoder has never
seen; so the decoder gets along exactly if the first description that it is sent is not compressed.

Main definitions:

* `DolbyVision.Stream.after` — an encoder after some steps;
* `DolbyVision.Link.joining` — an encoder in the middle of a stream and a decoder that starts;
* `DolbyVision.Link.Joining` — the decoder has the mappings, and no color description yet.

Main results:

* `DolbyVision.Link.Joining.transcript` — what such a decoder needs to accept everything;
* `DolbyVision.Link.random_access` — **the same of a decoder that starts at an RPU without
  compression**.
-/

import DolbyVision.Proofs.Stream.Lockstep

set_option relaxedAutoImplicit false
set_option autoImplicit false

namespace DolbyVision

open DolbyVision.Stream

/-! ### Encoders in the middle of a stream -/

namespace Stream

variable {e d : Stream} {m : Metadata} {options : EncodeOptions} {p : Plan}

/-- An encoder after some steps. -/
def after (e : Stream) : List EncoderStep → Stream
  | [] => e
  | .flush :: steps => e.flush.after steps
  | .encode m compress :: steps => (e.encode (some m) (e.wrapping compress)).state.after steps

theorem configuration_encode :
    (e.encode (some m) options).state.configuration = e.configuration := by
  cases hresult : (e.encode (some m) options).result with
  | error fault => rw [state_encode_of_error hresult]
  | ok out =>
    obtain ⟨p, rpu, -, -, -, hencode⟩ := encode_eq_ok hresult
    rw [hencode, commit_eq]

theorem configuration_after (steps : List EncoderStep) :
    (e.after steps).configuration = e.configuration := by
  induction steps generalizing e with
  | nil => rfl
  | cons step steps ih =>
    cases step with
    | flush => exact ih
    | encode m compress => exact ih.trans configuration_encode

/-- An RPU without compression refers to nothing. -/
theorem Plans.free (hplans : e.Plans m options p) (hfree : options.compress = false) :
    p.compression = .none ∧ p.reuses = false ∧ p.compressed = false := by
  have hnone : p.compression = .none := by
    rw [hplans.compression, usedCompression, hfree]
    rfl
  refine ⟨hnone, ?_, ?_⟩
  · rw [hplans.reuses, hnone]
    rfl
  · rw [hplans.compressed, hnone]
    simp

/-- Without compression an encoder plans as if it had sent nothing before. -/
theorem Plans.flush (hplans : e.Plans m options p) (hfree : options.compress = false) :
    e.flush.Plans m options p := by
  obtain ⟨hnone, hreuses, hcompressed⟩ := hplans.free hfree
  refine ⟨hplans.valid, hplans.metadata, hplans.profile, hplans.configured, hplans.compression,
    ?_, hplans.hasColor, ?_⟩
  · rw [hreuses, hnone]
    rfl
  · rw [hcompressed, hnone]
    simp

/-- After an RPU without compression an encoder has the mappings that it would have if it had sent
nothing before. -/
theorem slots_commit_flush (hplans : e.Plans m options p) (hfree : options.compress = false) :
    (e.flush.commit p).slots = (e.commit p).slots := by
  obtain ⟨hnone, hreuses, -⟩ := hplans.free hfree
  have hafter (s : Stream) : s.slotsAfter p = Slots.empty.set p.id (some p.metadata.mapping) := by
    unfold slotsAfter
    dsimp only
    rw [hnone, hreuses, if_neg (by decide), if_neg Bool.false_ne_true, get_keep, if_pos rfl]
  rw [commit_eq, commit_eq]
  exact (hafter _).trans (hafter _).symm

/-- **A decoder shares the mappings of an encoder after an RPU without compression**, whatever it
had before. -/
theorem sharesMappings_of_free (hplans : e.Plans m options p) (hfree : options.compress = false)
    (hcanonical : m.IsCanonical) (hsame : d.configuration = e.configuration) :
    (d.receive p).SharesMappings (e.commit p) := by
  -- The encoder might as well have been flushed, since the RPU keeps no other slot.
  have hnext := (sharesMappings_flush hsame).next (hplans.flush hfree) hcanonical
  refine ⟨by rw [commit_eq]; exact hsame, fun id mapping hslot => hnext.slots id mapping ?_⟩
  unfold slot at hslot ⊢
  rwa [slots_commit_flush hplans hfree]

/-- It shares a color description that was sent to it. -/
theorem sharesColor_of_sent (hplans : e.Plans m options p) (hcanonical : m.IsCanonical)
    (hcompressed : p.compressed = false) (hhas : p.hasColor = true) :
    (d.receive p).SharesColor (e.commit p) := by
  refine SharesColor.next hplans hcanonical (fun h => ?_) fun h => ?_
  · rw [hcompressed] at h
    cases h
  · rw [hhas] at h
    cases h

end Stream

/-! ### Decoders that start -/

namespace Link

variable {l : Link} {strictness : Strictness} {m : Metadata} {compress : Bool} {p : Plan}
  {rpu wrapped : List UInt8}

/-- The decoder has the mappings to which the encoder may refer, and no color description yet. -/
structure Joining (l : Link) : Prop where
  mappings : l.decoder.SharesMappings l.encoder
  color : l.decoder.color = none

theorem Joining.flush (hl : l.Joining) : Joining { l with encoder := l.encoder.flush } where
  mappings := sharesMappings_flush hl.mappings.configuration
  color := hl.color

/-- A decoder that is joining accepts an RPU whose display management data is not compressed, and
has its mapping afterwards. -/
theorem Joining.encode (hl : l.Joining)
    (hplans : l.encoder.Plans m (l.encoder.wrapping compress) p) (hrpu : p.rpu = .ok rpu)
    (hwrap : (l.encoder.wrapping compress).wrap rpu = .ok wrapped)
    (hsuits : l.encoder.configuration.Suits strictness)
    (hstep : (EncoderStep.encode m compress).IsCanonical l.encoder.configuration.profile)
    (hcarries : l.encoder.Carries rpu.length) (hcompressed : p.compressed = false) :
    (l.delivered strictness p rpu wrapped).IsFaithful ∧
      l.decoder.decodeWrapped wrapped strictness = ⟨.ok (), l.decoder.receive p, []⟩ := by
  have hfree : p.compressed = true → l.decoder.SharesColor l.encoder := by
    intro h
    rw [hcompressed] at h
    cases h
  have hpermits := permits_of_plans hplans hl.mappings.configuration hsuits hstep.2
  have haccepts := accepts_of_shares hplans hpermits hl.mappings hfree
  have hdecoded := decodeWrapped_of_accepts hplans.valid hrpu hwrap hl.mappings.configuration
    hcarries haccepts
  exact ⟨faithful_of_shares hplans hstep.1 hdecoded hl.mappings hfree, hdecoded⟩

/-- A decoder that is joining refuses an RPU whose display management data is compressed. -/
theorem Joining.refuses (hl : l.Joining)
    (hplans : l.encoder.Plans m (l.encoder.wrapping compress) p) (hrpu : p.rpu = .ok rpu)
    (hwrap : (l.encoder.wrapping compress).wrap rpu = .ok wrapped)
    (hsuits : l.encoder.configuration.Suits strictness)
    (hstep : (EncoderStep.encode m compress).IsCanonical l.encoder.configuration.profile)
    (hcarries : l.encoder.Carries rpu.length) (hcompressed : p.compressed = true) :
    ¬ (l.delivered strictness p rpu wrapped).IsFaithful := by
  have hpermits := permits_of_plans hplans hl.mappings.configuration hsuits hstep.2
  have hslot : p.reuses = true → (l.decoder.slot p.id).isSome := by
    intro hreuses
    rw [hl.mappings.slots _ _ (hplans.slot hreuses)]
    rfl
  exact not_faithful_of_refuses hplans.valid hrpu hwrap hl.mappings.configuration hcarries
    fun w hput => refuses_color hplans.valid hpermits hslot hcompressed hl.color hput

/-- Whether the first display management data that is sent is not compressed. -/
def startsFree (deliveries : List Delivery) : Bool :=
  (deliveries.find? Delivery.hasColor).all fun delivery => !delivery.isCompressed

theorem startsFree_cons_of_color {delivery : Delivery} {deliveries : List Delivery}
    (hcolor : delivery.hasColor = true) :
    startsFree (delivery :: deliveries) = !delivery.isCompressed := by
  rw [startsFree, List.find?_cons_of_pos hcolor, Option.all_some]

theorem startsFree_cons {delivery : Delivery} {deliveries : List Delivery}
    (hcolor : delivery.hasColor = false) :
    startsFree (delivery :: deliveries) = startsFree deliveries := by
  rw [startsFree, List.find?_cons_of_neg (by rw [hcolor]; exact Bool.false_ne_true), startsFree]

/-- After an RPU without compressed data that was delivered faithfully, a decoder is in step if the
RPU has display management data, and otherwise goes on joining. -/
theorem transcript_of_free {steps : List EncoderStep}
    (hplans : l.encoder.Plans m (l.encoder.wrapping compress) p) (hcanonical : m.IsCanonical)
    (hfaithful : (l.delivered strictness p rpu wrapped).IsFaithful)
    (hmappings : (l.decoder.receive p).SharesMappings (l.encoder.commit p))
    (hsuits : l.encoder.configuration.Suits strictness)
    (hnal : l.encoder.configuration.profile ≠ t35Profile)
    (hsteps : ∀ step ∈ steps, step.IsCanonical l.encoder.configuration.profile)
    (hcompressed : p.compressed = false)
    (hjoining : p.hasColor = false →
      ((∀ delivery ∈ transcript ⟨l.encoder.commit p, l.decoder.receive p⟩ strictness steps,
          delivery.IsFaithful) ↔
        startsFree (transcript ⟨l.encoder.commit p, l.decoder.receive p⟩ strictness steps))) :
    (∀ delivery ∈ l.delivered strictness p rpu wrapped ::
        transcript ⟨l.encoder.commit p, l.decoder.receive p⟩ strictness steps,
        delivery.IsFaithful) ↔
      startsFree (l.delivered strictness p rpu wrapped ::
        transcript ⟨l.encoder.commit p, l.decoder.receive p⟩ strictness steps) := by
  have hconfiguration : (l.encoder.commit p).configuration = l.encoder.configuration := by
    rw [commit_eq]
  rw [List.forall_mem_cons, and_iff_right hfaithful]
  cases hhas : p.hasColor with
  | true =>
    have hnext : InStep ⟨l.encoder.commit p, l.decoder.receive p⟩ :=
      ⟨hmappings, sharesColor_of_sent hplans hcanonical hcompressed hhas⟩
    have hall := hnext.faithful (by rwa [hconfiguration]) (by rwa [hconfiguration])
      (by rwa [hconfiguration])
    have hcolor : (l.delivered strictness p rpu wrapped).hasColor = true := hhas
    have hfree : (l.delivered strictness p rpu wrapped).isCompressed = false := hcompressed
    rw [startsFree_cons_of_color hcolor, hfree]
    exact iff_of_true hall rfl
  | false =>
    have hcolor : (l.delivered strictness p rpu wrapped).hasColor = false := hhas
    rw [startsFree_cons hcolor]
    exact hjoining hhas

/-- A decoder that had no color description has none after an RPU without one. -/
theorem Joining.next (hmappings : (l.decoder.receive p).SharesMappings (l.encoder.commit p))
    (hcolor : l.decoder.color = none) (hhas : p.hasColor = false) :
    Joining ⟨l.encoder.commit p, l.decoder.receive p⟩ where
  mappings := hmappings
  color := by
    unfold receive
    rw [hhas]
    exact hcolor

/-- **A decoder that is joining accepts everything**, exactly if the first display management data
that it is sent is not compressed. -/
theorem Joining.transcript {steps : List EncoderStep} (hl : l.Joining)
    (hsuits : l.encoder.configuration.Suits strictness)
    (hnal : l.encoder.configuration.profile ≠ t35Profile)
    (hsteps : ∀ step ∈ steps, step.IsCanonical l.encoder.configuration.profile) :
    (∀ delivery ∈ l.transcript strictness steps, delivery.IsFaithful) ↔
      startsFree (l.transcript strictness steps) := by
  induction steps generalizing l with
  | nil => simp [Link.transcript, startsFree]
  | cons step steps ih =>
    obtain ⟨hstep, hrest⟩ := List.forall_mem_cons.1 hsteps
    cases step with
    | flush => exact ih hl.flush hsuits hnal hrest
    | encode m compress =>
      rw [transcript_cons]
      rcases l.step_encode strictness m compress with hfails | hwrites
      · rw [hfails]
        exact ih hl hsuits hnal hrest
      · obtain ⟨p, rpu, wrapped, hplans, hrpu, hwrap, hsent⟩ := hwrites
        have hconfiguration : (l.encoder.commit p).configuration = l.encoder.configuration := by
          rw [commit_eq]
        have hcarries : l.encoder.Carries rpu.length := fun ht35 => absurd ht35 hnal
        rw [hsent, Option.toList_some, List.singleton_append]
        -- Compressed data is the first that is sent, and is refused; other data brings the decoder
        -- in step, or leaves it joining.
        cases hcompressed : p.compressed with
        | true =>
          have hrefused : ¬ (l.delivered strictness p rpu wrapped).IsFaithful :=
            hl.refuses hplans hrpu hwrap hsuits hstep hcarries hcompressed
          have hcolor : (l.delivered strictness p rpu wrapped).hasColor = true :=
            hplans.valid.hasColor hcompressed
          have hseen : (l.delivered strictness p rpu wrapped).isCompressed = true := hcompressed
          rw [startsFree_cons_of_color hcolor, hseen, List.forall_mem_cons]
          exact iff_of_false (fun h => hrefused h.1) (by decide)
        | false =>
          obtain ⟨hfaithful, hdecoded⟩ :=
            hl.encode hplans hrpu hwrap hsuits hstep hcarries hcompressed
          have hmappings := hl.mappings.next hplans hstep.1
          rw [hdecoded]
          refine transcript_of_free hplans hstep.1 hfaithful hmappings hsuits hnal hrest
            hcompressed fun hhas => ih (Joining.next hmappings hl.color hhas) ?_ ?_ ?_
          all_goals rwa [hconfiguration]

/-! ### Random access -/

/-- An encoder that has taken some steps, and a decoder that starts. -/
def joining (c : Configuration) (history : List EncoderStep) : Link :=
  ⟨({ configuration := c } : DolbyVision.Stream).after history, { configuration := c }⟩

/-- **Random access.**  A decoder that starts at an RPU without compression accepts that RPU and all
later ones, and exports the metadata that was sent, exactly if the first display management data
that it is sent is not compressed. -/
theorem random_access {c : Configuration} {history steps : List EncoderStep}
    (hsuits : c.Suits strictness) (hnal : c.profile ≠ t35Profile)
    (hfirst : (EncoderStep.encode m false).IsCanonical c.profile)
    (hsteps : ∀ step ∈ steps, step.IsCanonical c.profile)
    (hwritten : ((joining c history).encoder.encode (some m)
      ((joining c history).encoder.wrapping false)).result = .ok wrapped) :
    (∀ delivery ∈ (joining c history).transcript strictness (.encode m false :: steps),
        delivery.IsFaithful) ↔
      startsFree ((joining c history).transcript strictness (.encode m false :: steps)) := by
  have hencoder : (joining c history).encoder.configuration = c := configuration_after history
  have hcolor : (joining c history).decoder.color = none := rfl
  have hsame : (joining c history).decoder.configuration =
      (joining c history).encoder.configuration := hencoder.symm
  generalize joining c history = l at *
  subst hencoder
  obtain ⟨p, rpu, hplan, hrpu, hwrap, -⟩ := encode_eq_ok hwritten
  have hplans := plans_of_plan hplan
  obtain ⟨-, hreuses, hcompressed⟩ := hplans.free rfl
  have hcarries : l.encoder.Carries rpu.length := fun ht35 => absurd ht35 hnal
  -- The plan refers to nothing, so it is one of an encoder that has sent nothing before.
  have hforgotten : Joining ⟨l.encoder.flush, l.decoder⟩ := ⟨sharesMappings_flush hsame, hcolor⟩
  obtain ⟨hfaithful, hdecoded⟩ := hforgotten.encode (hplans.flush rfl) hrpu hwrap hsuits hfirst
    hcarries hcompressed
  have hfaithful' : (l.delivered strictness p rpu wrapped).IsFaithful :=
    ⟨hfaithful.received, hfaithful.exported, kept_delivered hplans hfirst.1⟩
  have hmappings := sharesMappings_of_free hplans rfl hfirst.1 hsame
  rw [transcript_cons, step_of_plan hplan hrpu hwrap, hdecoded]
  refine transcript_of_free hplans hfirst.1 hfaithful' hmappings hsuits hnal hsteps hcompressed
    fun hhas => (Joining.next hmappings hcolor hhas).transcript ?_ ?_ ?_
  all_goals rwa [commit_eq]

theorem isCanonical_identity_step (compress : Bool) :
    (EncoderStep.encode .identity compress).IsCanonical 8 :=
  ⟨Metadata.isCanonical_identity SourceColor.fits_assumed (fun _ hb => absurd hb List.not_mem_nil)
    List.Pairwise.nil, fun hfive => absurd hfive (by decide)⟩

theorem isCanonical_colored_step (compress : Bool) :
    (EncoderStep.encode colored compress).IsCanonical 8 :=
  ⟨isCanonical_colored, fun hfive => absurd hfive (by decide)⟩

/-- A decoder that starts at an RPU with a color description accepts what follows it, also if that
is compressed. -/
theorem random_access_colored :
    ((joining { profile := 8, compression := .limited } [.encode .identity false]).transcript .none
        [.encode colored false, .encode colored true]).length = 2 ∧
      ∀ delivery ∈ (joining { profile := 8, compression := .limited }
        [.encode .identity false]).transcript .none [.encode colored false, .encode colored true],
        delivery.IsFaithful := by
  refine ⟨by decide +kernel, ?_⟩
  let l := joining { profile := 8, compression := .limited } [.encode .identity false]
  have hok : (l.encoder.encode (some colored) (l.encoder.wrapping false)).result.toOption.isSome =
      true := by
    decide +kernel
  obtain ⟨wrapped, hwritten⟩ := Checked.exists_ok hok
  refine (random_access (Configuration.suits_none _) (by decide) (isCanonical_colored_step false)
    ?_ hwritten).2 (by decide +kernel)
  rw [List.forall_mem_singleton]
  exact isCanonical_colored_step true

/-- **An RPU without compression may leave a reference to data that was sent before it.**  The first
RPU has a color description, the second one, without compression, has none, and the third one refers
to the description of the first.  A decoder that starts at the second one refuses the third. -/
theorem not_random_access :
    (∀ step ∈ [.encode colored false, .encode .identity false, .encode colored true],
        EncoderStep.IsCanonical 8 step) ∧
      ((ofConfiguration { profile := 8, compression := .limited }).transcript .none
        [.encode colored false, .encode .identity false, .encode colored true]).length = 3 ∧
      ¬ ∀ delivery ∈ (joining { profile := 8, compression := .limited }
        [.encode colored false]).transcript .none [.encode .identity false, .encode colored true],
        delivery.IsFaithful := by
  refine ⟨?_, by decide +kernel, fun hclaim => ?_⟩
  · simp only [List.forall_mem_cons]
    exact ⟨isCanonical_colored_step false, isCanonical_identity_step false,
      isCanonical_colored_step true, fun _ hmem => absurd hmem List.not_mem_nil⟩
  · have hreceived : ((joining { profile := 8, compression := .limited }
        [.encode colored false]).transcript .none
          [.encode .identity false, .encode colored true]).all
            (fun delivery => delivery.received.toOption.isSome) = false := by
      decide +kernel
    rw [List.all_eq_true.2 fun delivery hmem => by
      rw [(hclaim delivery hmem).received]; rfl] at hreceived
    cases hreceived

end Link

end DolbyVision
