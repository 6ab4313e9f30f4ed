/-
**An encoder and a decoder at the two ends of a link.**

An encoder takes one step after another: it forgets what it has sent, or it is given metadata to
write, as an RPU that may be compressed.  Whatever it writes is taken out of its wrapping and
decoded before the next step; an encoder that fails sends nothing.  The transcript of a link lists
what became of the RPUs.

Main definitions:

* `DolbyVision.EncoderStep` — the steps of an encoder;
* `DolbyVision.Link`, `DolbyVision.Link.step`, `DolbyVision.Link.transcript` — both ends, what a
  step does to them, and what became of the RPUs;
* `DolbyVision.Delivery.IsFaithful` — a decoder has accepted an RPU, and both ends export the
  metadata that was sent.

Main results:

* `DolbyVision.Link.step_encode` — an encoder that writes an RPU has planned it, and otherwise
  nothing happens;
* `DolbyVision.Link.faithful_of_shares` — **an RPU is delivered faithfully** if its wrapping carries
  it and the decoder shares what it refers to;
* `DolbyVision.Link.not_faithful_of_large` — an RPU that its wrapping does not carry is refused.
-/

import DolbyVision.Proofs.Stream.Shared
import DolbyVision.Proofs.Stream.Transport

set_option relaxedAutoImplicit false
set_option autoImplicit false

namespace DolbyVision

/-! ### Steps -/

/-- A step of an encoder. -/
inductive EncoderStep where
  /-- The encoder forgets what it has sent. -/
  | flush
  /-- The encoder writes metadata, compressed or not. -/
  | encode (m : Metadata) (compress : Bool)

/-- The ends of a link. -/
structure Link where
  encoder : Stream
  decoder : Stream

/-- What became of an RPU. -/
structure Delivery where
  /-- The metadata that the encoder was given. -/
  sent : Metadata
  /-- What the encoder decided to send. -/
  plan : Option Plan
  /-- The number of bytes of the RPU, as the encoder reports it. -/
  size : Nat
  /-- What the decoder says. -/
  received : Except Fault Unit
  /-- The metadata that the decoder exports. -/
  exported : Option Metadata
  /-- The metadata that the encoder exports. -/
  kept : Option Metadata

namespace Delivery

/-- The decoder has accepted the RPU, and both ends export the metadata that was sent. -/
structure IsFaithful (delivery : Delivery) : Prop where
  received : delivery.received = .ok ()
  exported : delivery.exported = some delivery.sent
  kept : delivery.kept = some delivery.sent

/-- Whether the RPU has display management data. -/
def hasColor (delivery : Delivery) : Bool :=
  delivery.plan.any Plan.hasColor

/-- Whether its display management data is compressed. -/
def isCompressed (delivery : Delivery) : Bool :=
  delivery.plan.any Plan.compressed

end Delivery

/-- The size that an encoder reports. -/
def Note.rpuSize : Note → Option Nat
  | .generated size => some size
  | _ => none

namespace Link

/-- What a step of the encoder does to both ends, and what became of its RPU if it wrote one. -/
def step (l : Link) (strictness : Strictness) : EncoderStep → Link × Option Delivery
  | .flush => ({ l with encoder := l.encoder.flush }, none)
  | .encode m compress =>
    let options := l.encoder.wrapping compress
    let encoded := l.encoder.encode (some m) options
    match encoded.result with
    | .error _ => ({ l with encoder := encoded.state }, none)
    | .ok wrapped =>
      let decoded := l.decoder.decodeWrapped wrapped strictness
      let delivery : Delivery := {
        sent := m
        plan := (l.encoder.plan m options).toOption
        size := (encoded.notes.findSome? Note.rpuSize).getD 0
        received := decoded.result
        exported := decoded.state.metadata
        kept := encoded.state.metadata }
      (⟨encoded.state, decoded.state⟩, some delivery)

/-- What became of the RPUs, step after step. -/
def transcript (l : Link) (strictness : Strictness) : List EncoderStep → List Delivery
  | [] => []
  | step :: steps =>
    let (l', delivery) := l.step strictness step
    delivery.toList ++ l'.transcript strictness steps

variable {l : Link} {strictness : Strictness} {m : Metadata} {compress : Bool}
  {steps : List EncoderStep}

theorem transcript_cons (step : EncoderStep) :
    l.transcript strictness (step :: steps) =
      (l.step strictness step).2.toList ++ (l.step strictness step).1.transcript strictness steps :=
  rfl

/-! ### One RPU -/

/-- What became of an RPU that was planned, written and wrapped. -/
def delivered (l : Link) (strictness : Strictness) (p : Plan) (rpu wrapped : List UInt8) :
    Delivery where
  sent := p.metadata
  plan := some p
  size := rpu.length
  received := (l.decoder.decodeWrapped wrapped strictness).result
  exported := (l.decoder.decodeWrapped wrapped strictness).state.metadata
  kept := (l.encoder.commit p).metadata

/-- An encoder that can plan, write and wrap an RPU sends it. -/
theorem step_of_plan {p : Plan} {rpu wrapped : List UInt8}
    (hplan : l.encoder.plan m (l.encoder.wrapping compress) = .ok p) (hrpu : p.rpu = .ok rpu)
    (hwrap : (l.encoder.wrapping compress).wrap rpu = .ok wrapped) :
    l.step strictness (.encode m compress) =
      (⟨l.encoder.commit p, (l.decoder.decodeWrapped wrapped strictness).state⟩,
        some (l.delivered strictness p rpu wrapped)) := by
  unfold step delivered
  dsimp only
  rw [Stream.encode_of_plan hplan hrpu hwrap, hplan, (Stream.plans_of_plan hplan).metadata]
  rfl

/-- **An encoder that fails changes nothing, and one that does not has planned, written and wrapped
an RPU.** -/
theorem step_encode (l : Link) (strictness : Strictness) (m : Metadata) (compress : Bool) :
    l.step strictness (.encode m compress) = (l, none) ∨
      ∃ p rpu wrapped, l.encoder.Plans m (l.encoder.wrapping compress) p ∧ p.rpu = .ok rpu ∧
        (l.encoder.wrapping compress).wrap rpu = .ok wrapped ∧
        l.step strictness (.encode m compress) =
          (⟨l.encoder.commit p, (l.decoder.decodeWrapped wrapped strictness).state⟩,
            some (l.delivered strictness p rpu wrapped)) := by
  cases hresult : (l.encoder.encode (some m) (l.encoder.wrapping compress)).result with
  | error fault =>
    refine Or.inl ?_
    unfold step
    dsimp only
    rw [hresult, Stream.state_encode_of_error hresult]
  | ok wrapped =>
    obtain ⟨p, rpu, hplan, hrpu, hwrap, -⟩ := Stream.encode_eq_ok hresult
    exact Or.inr ⟨p, rpu, wrapped, Stream.plans_of_plan hplan, hrpu, hwrap,
      step_of_plan hplan hrpu hwrap⟩

/-! ### What a decoder makes of it -/

variable {p : Plan} {rpu wrapped : List UInt8}

/-- An encoder exports the metadata that it has sent. -/
theorem kept_delivered (hplans : l.encoder.Plans m (l.encoder.wrapping compress) p)
    (hcanonical : m.IsCanonical) :
    (l.delivered strictness p rpu wrapped).kept =
      some (l.delivered strictness p rpu wrapped).sent := by
  unfold delivered
  dsimp only
  rw [hplans.metadata]
  exact Stream.metadata_commit hplans hcanonical

/-- **An RPU is delivered faithfully** if its wrapping carries it and the decoder shares what it
refers to. -/
theorem faithful_of_shares (hplans : l.encoder.Plans m (l.encoder.wrapping compress) p)
    (hcanonical : m.IsCanonical) (hdecoded : l.decoder.decodeWrapped wrapped strictness =
      ⟨.ok (), l.decoder.receive p, []⟩) (hmappings : l.decoder.SharesMappings l.encoder)
    (hcolor : p.compressed = true → l.decoder.SharesColor l.encoder) :
    (l.delivered strictness p rpu wrapped).IsFaithful where
  received := congrArg Outcome.result hdecoded
  exported := by
    have hstate := congrArg Outcome.state hdecoded
    unfold delivered
    dsimp only
    rw [hstate, hplans.metadata]
    exact Stream.metadata_receive hplans hcanonical hmappings hcolor
  kept := kept_delivered hplans hcanonical

/-- An RPU that its wrapping does not carry is refused. -/
theorem not_faithful_of_large (hwrap : (l.encoder.wrapping compress).wrap rpu = .ok wrapped)
    (hsame : l.decoder.configuration = l.encoder.configuration)
    (hlarge : ¬ l.encoder.Carries rpu.length) :
    ¬ (l.delivered strictness p rpu wrapped).IsFaithful := by
  intro hfaithful
  have hrefused := hfaithful.received.symm.trans
    (Stream.decodeWrapped_of_large hwrap hsame hlarge)
  cases hrefused

/-- An RPU that the decoder refuses is not delivered. -/
theorem not_faithful_of_refuses {fault : Fault} (hvalid : p.Valid) (hrpu : p.rpu = .ok rpu)
    (hwrap : (l.encoder.wrapping compress).wrap rpu = .ok wrapped)
    (hsame : l.decoder.configuration = l.encoder.configuration)
    (hcarries : l.encoder.Carries rpu.length)
    (hrefuses : ∀ w, p.put Bits.Writer.empty = .ok w →
      Bits.Refuses (Stream.rpuBits w) Bits.Writer.empty w (l.decoder.readRpu strictness) fault) :
    ¬ (l.delivered strictness p rpu wrapped).IsFaithful := by
  intro hfaithful
  have hrefused := hfaithful.received.symm.trans
    (Stream.decodeWrapped_of_refuses hvalid hrpu hwrap hsame hcarries hrefuses)
  cases hrefused

end Link

end DolbyVision
