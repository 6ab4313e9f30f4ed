/-
**What a failure leaves behind.**

A decoder that works in place puts a mapping in its slot as soon as it has read it, long before the
last bit that it may stumble over, and forgets everything once it has stumbled.  This module states
such a decoder, shows that a mapping is all that can be left behind before it forgets, and that it
is the decoder of the library (`Stream.decodeInPlace_eq`).  Encoders and configurations change
nothing before everything that can fail has succeeded.

Main definitions:

* `DolbyVision.InPlace` — reads that change a stream as they go;
* `DolbyVision.Stream.decodeInPlace` — a decoder that works in place;
* `DolbyVision.Call`, `DolbyVision.Reply`, `DolbyVision.LabelledStream.replies` — what a stream is
  asked, and what it answers;
* `DolbyVision.LabelledStream.emptied` — an empty stream with the name, the configuration and the
  choice of another one.

Main results:

* `DolbyVision.InPlace.agrees_readRpu` — **reading in place and reading agree**, and a read that
  fails has at most put a mapping in its slot;
* `DolbyVision.Stream.decodeInPlace_eq` — a decoder that works in place and forgets when it fails is
  the decoder of the library;
* `DolbyVision.LabelledStream.failure_leaves` — **what a failure leaves behind**: a decoder is
  empty, an encoder and a configuration are as they were.
-/

import DolbyVision.Proofs.Stream.Plan
import DolbyVision.Proofs.Stream.Standalone
import DolbyVision.Stream.Configure

set_option relaxedAutoImplicit false
set_option autoImplicit false

namespace DolbyVision

open Bits

/-! ### Reading in place -/

/-- Reads that change a stream as they go.  A read that fails leaves the stream as it has become. -/
abbrev InPlace := EStateM Fault (Stream × DecoderState)

namespace InPlace

/-- A read that leaves the stream alone. -/
def read {α : Type} (p : Decoder α) : InPlace α := fun (s, state) =>
  match p state with
  | .ok a state => .ok a (s, state)
  | .error fault state => .error fault (s, state)

instance : MonadLift Decoder InPlace where
  monadLift := read

/-- The stream as it has become. -/
def stream : InPlace Stream :=
  Prod.fst <$> get

def change (f : Stream → Stream) : InPlace Unit :=
  modify fun (s, state) => (f s, state)

/-- Puts a mapping in its slot, or finds the slot that is referred to. -/
def readMapping (h : Header) (reuses : Bool) : InPlace Id := do
  let s ← stream
  let id ← Stream.readId
  if reuses then
    let id := s.referredSlot id
    if (s.slot id).isNone then
      Decoder.report (.unknownPreviousId id.val)
      throw (.malformed .unknownPreviousId)
    return id
  else
    let mapping ← Mapping.read h id.val h.usesNlq
    change fun s => { s with slots := s.slots.keep id mapping }
    return id

/-- Replaces the color description and the blocks. -/
def readColor (compressed : Bool) (strictness : Strictness) : InPlace Unit := do
  let s ← stream
  let affected ← Stream.readId
  let current ← Stream.readId
  if affected ≠ current then
    throw (.unsupported .mismatchedColorIds)
  let color ← s.readSourceColor compressed affected
  let static := if compressed then (s.blocks.map BlockSet.static).getD [] else []
  let blocks ← Stream.readBlocks compressed strictness { static }
  change fun s => { s with
    color := some color
    view := .sent
    blocks := if blocks.isEmpty then none else some blocks }

/-- Reads what follows the flags.  The header and the slot of the mapping come last. -/
def readParts (strictness : Strictness) (header : Header) (hasColor reuses compressed : Bool) :
    InPlace Unit := do
  (← stream).checkProfile strictness header reuses
  let id ← readMapping header reuses
  if hasColor then readColor compressed strictness
  else change fun s => { s with view := .assumed, blocks := none }
  change fun s => { s with header, active := some id }

/-- Reads what follows the type of an RPU. -/
def readBody (strictness : Strictness) (rpuType : UInt8) : InPlace Unit := do
  let header ← Header.read rpuType strictness
  let hasColor ← Reader.flag
  let reuses ← Reader.flag
  let compressed ← if (← stream).compresses then liftM Reader.flag else pure false
  readParts strictness header hasColor reuses compressed

/-- Reads an RPU from its first bit on. -/
def readRpu (strictness : Strictness) : InPlace Unit := do
  let rpuType ← Reader.u8 6
  if rpuType = Stream.knownRpuType then
    readBody strictness rpuType
  else
    Decoder.report (.unrecognizedRpuType rpuType)
    return

end InPlace

/-- What is left of a stream in front of a fault, except that a mapping may be in a slot. -/
def Stream.LeavesMapping (s s' : Stream) : Prop :=
  ∃ slots, s' = { s with slots }

/-! ### Reads that agree -/

/-- A read and one that works in place agree, from `s` on: they give values that are related, or
come upon the same fault, with nothing but a mapping left behind in the stream `s₀` that the read in
place began with. -/
def InPlace.Agrees {α β : Type} (s₀ : Stream) (p : Decoder β) (q : InPlace α) (s : Stream)
    (R : β → α → Stream → Prop) : Prop :=
  ∀ state, match p state with
    | .ok b state' => ∃ a s', q (s, state) = .ok a (s', state') ∧ R b a s'
    | .error fault state' => ∃ s', q (s, state) = .error fault (s', state') ∧ s₀.LeavesMapping s'

namespace InPlace

section Agrees

variable {α β γ δ ε : Type} {s₀ s : Stream} {p p' : Decoder β} {q q' : InPlace α}
  {R : β → α → Stream → Prop} {f : β → Decoder δ} {g : α → InPlace γ}
  {Q : δ → γ → Stream → Prop} {c : Prop} [Decidable c] {fault : Fault}

theorem Agrees.pure {b : β} {a : α} (h : R b a s) :
    Agrees s₀ (Pure.pure b) (Pure.pure a) s R :=
  fun _ => ⟨a, s, rfl, h⟩

theorem Agrees.throw (hs : s₀.LeavesMapping s) :
    Agrees s₀ (MonadExcept.throw fault : Decoder β) (MonadExcept.throw fault : InPlace α) s R :=
  fun _ => ⟨s, rfl, hs⟩

/-- What is related after the first step is what the rest goes on with. -/
theorem Agrees.bind (h₁ : Agrees s₀ p q s R)
    (h₂ : ∀ b a s', R b a s' → Agrees s₀ (f b) (g a) s' Q) :
    Agrees s₀ (p >>= f) (q >>= g) s Q := by
  intro state
  have hfirst := h₁ state
  cases hp : p state with
  | error fault state' =>
    rw [hp] at hfirst
    obtain ⟨s', hq, hleaves⟩ := hfirst
    rw [Run.bind_error hp]
    exact ⟨s', Run.bind_error hq, hleaves⟩
  | ok b state' =>
    rw [hp] at hfirst
    obtain ⟨a, s', hq, hR⟩ := hfirst
    rw [Run.bind_ok hp, Run.bind_ok hq]
    exact h₂ b a s' hR state'

/-- A read that leaves the stream alone gives the same value in place. -/
theorem Agrees.lift (hs : s₀.LeavesMapping s) :
    Agrees s₀ p (InPlace.read p) s fun b a s' => b = a ∧ s' = s := by
  intro state
  cases hp : p state with
  | error fault state' => exact ⟨s, by simp only [InPlace.read, hp], hs⟩
  | ok b state' => exact ⟨b, s, by simp only [InPlace.read, hp], rfl, rfl⟩

theorem Agrees.read {g : β → InPlace γ} (hs : s₀.LeavesMapping s)
    (h : ∀ b, Agrees s₀ (f b) (g b) s Q) : Agrees s₀ (p >>= f) (InPlace.read p >>= g) s Q := by
  refine (Agrees.lift hs).bind ?_
  rintro b _ _ ⟨rfl, rfl⟩
  exact h b

theorem Agrees.stream {q : Stream → InPlace α} (h : Agrees s₀ p (q s) s R) :
    Agrees s₀ p (InPlace.stream >>= q) s R :=
  h

theorem Agrees.change {q : Unit → InPlace α} {t : Stream → Stream}
    (h : Agrees s₀ p (q ()) (t s) R) : Agrees s₀ p (InPlace.change t >>= q) s R :=
  h

/-- A change at the end. -/
theorem Agrees.last {R : β → Unit → Stream → Prop} {b : β} {t : Stream → Stream}
    (h : R b () (t s)) : Agrees s₀ (Pure.pure b) (InPlace.change t) s R :=
  fun _ => ⟨(), t s, rfl, h⟩

theorem Agrees.ite (h₁ : c → Agrees s₀ p q s R) (h₂ : ¬ c → Agrees s₀ p' q' s R) :
    Agrees s₀ (if c then p else p') (if c then q else q') s R := by
  by_cases hc : c
  · rw [if_pos hc, if_pos hc]
    exact h₁ hc
  · rw [if_neg hc, if_neg hc]
    exact h₂ hc

end Agrees


/-! ### An RPU -/

variable {s₀ s : Stream} {strictness : Strictness}

/-- A mapping that was read is in its slot at once.  It is not the active one before the end. -/
theorem agrees_readMapping (hs : s₀.LeavesMapping s) (h : Header) (reuses : Bool) :
    Agrees s₀ (s.readMapping h reuses) (readMapping h reuses) s fun d id s' =>
      d = { s' with active := some id } ∧ s₀.LeavesMapping s' := by
  refine .stream (.read hs fun id => .ite (fun _ => .ite (fun _ => ?_) fun _ => ?_) fun _ => ?_)
  · exact .read hs fun _ => .throw hs
  · exact .pure ⟨rfl, hs⟩
  · refine .read hs fun mapping => .change (.pure ⟨rfl, ?_⟩)
    obtain ⟨slots, rfl⟩ := hs
    exact ⟨slots.keep id mapping, rfl⟩

/-- The color description and the blocks are replaced at the end, and do not depend on which mapping
is the active one. -/
theorem agrees_readColor (hs : s₀.LeavesMapping s) (id : Id) (compressed : Bool) :
    Agrees s₀ (Stream.readColor { s with active := some id } compressed strictness)
      (readColor compressed strictness) s fun d _ s' => d = { s' with active := some id } := by
  refine .stream (.read hs fun affected => .read hs fun current => .ite (fun _ => ?_) fun _ => ?_)
  · exact .throw hs
  · exact .read hs fun color => .read hs fun blocks => .last rfl

/-- The header and the slot of the mapping come last, when nothing can fail. -/
theorem agrees_readParts (s : Stream) (h : Header) (hasColor reuses compressed : Bool) :
    Agrees s (s.readParts strictness h hasColor reuses compressed)
      (readParts strictness h hasColor reuses compressed) s fun d _ s' => d = s' := by
  have hs : s.LeavesMapping s := ⟨s.slots, rfl⟩
  refine .stream (.read hs fun _ => (agrees_readMapping hs h reuses).bind ?_)
  rintro _ id s' ⟨rfl, hs'⟩
  refine .ite (fun _ => ?_) fun _ => ?_
  · refine (agrees_readColor hs' id compressed).bind ?_
    rintro _ _ s'' rfl
    exact .last rfl
  · exact .change (.last rfl)

theorem agrees_readBody (s : Stream) (rpuType : UInt8) :
    Agrees s (s.readBody strictness rpuType) (readBody strictness rpuType) s
      fun d _ s' => d = s' := by
  have hs : s.LeavesMapping s := ⟨s.slots, rfl⟩
  refine .read hs fun h => .read hs fun hasColor => .read hs fun reuses => .stream ?_
  refine .ite (fun _ => .read hs fun compressed => ?_) fun _ => ?_
  · exact agrees_readParts s h hasColor reuses compressed
  · exact agrees_readParts s h hasColor reuses false

/-- **Reading in place and reading agree**, and a read in place that fails has at most put a mapping
in its slot. -/
theorem agrees_readRpu (s : Stream) (strictness : Strictness) :
    Agrees s (s.readRpu strictness) (readRpu strictness) s fun d _ s' => d = s' := by
  have hs : s.LeavesMapping s := ⟨s.slots, rfl⟩
  refine .read hs fun rpuType => .ite (fun _ => ?_) fun _ => ?_
  · exact agrees_readBody s rpuType
  · exact .read hs fun _ => .pure rfl

end InPlace

/-! ### Decoding in place -/

/-- Decodes in place, without forgetting anything after a fault. -/
def Stream.decodeInPlace (s : Stream) (data : List UInt8) (strictness : Strictness) :
    Outcome Stream Unit :=
  match s.payload data with
  | .error fault => ⟨.error fault, s, []⟩
  | .ok rpu =>
    match Tail.verify rpu strictness with
    | (.error fault, notes) => ⟨.error fault, s, notes⟩
    | (.ok (), notes) =>
      match InPlace.readRpu strictness (s, ⟨Reader.ofBytes rpu, notes.toArray⟩) with
      | .ok () (s, state) => ⟨.ok (), s, state.notes.toList⟩
      | .error fault (s, state) => ⟨.error fault, s, state.notes.toList⟩

/-- Forgets what RPUs left behind if there was a fault. -/
def Outcome.flushed (o : Outcome Stream Unit) : Outcome Stream Unit :=
  match o.result with
  | .ok () => o
  | .error _ => { o with state := o.state.flush }

theorem Outcome.result_flushed (o : Outcome Stream Unit) : o.flushed.result = o.result := by
  unfold Outcome.flushed
  split <;> rfl

namespace Stream

variable {s : Stream} {data : List UInt8} {strictness : Strictness} {fault : Fault}

/-- A stream in which nothing but a mapping was left behind forgets it with everything else. -/
theorem LeavesMapping.flush {s' : Stream} (h : s.LeavesMapping s') : s'.flush = s.flush := by
  obtain ⟨slots, rfl⟩ := h
  rfl

/-- **A decoder that works in place and forgets when it fails** is the decoder of the library, and
nothing but a mapping was left behind in front of a fault. -/
theorem decodeInPlace_eq (s : Stream) (data : List UInt8) (strictness : Strictness) :
    (s.decodeInPlace data strictness).flushed = s.decode data strictness ∧
      ∀ fault, (s.decodeInPlace data strictness).result = .error fault →
        s.LeavesMapping (s.decodeInPlace data strictness).state := by
  have hsame : s.LeavesMapping s := ⟨s.slots, rfl⟩
  unfold decodeInPlace decode
  cases s.payload data with
  | error fault => exact ⟨rfl, fun _ _ => hsame⟩
  | ok rpu =>
    dsimp only
    obtain ⟨fault | ⟨⟨⟩⟩, notes⟩ := Tail.verify rpu strictness
    · exact ⟨rfl, fun _ _ => hsame⟩
    · have hagrees := InPlace.agrees_readRpu s strictness ⟨Reader.ofBytes rpu, notes.toArray⟩
      dsimp only
      cases hread : s.readRpu strictness ⟨Reader.ofBytes rpu, notes.toArray⟩ with
      | ok s' state =>
        rw [hread] at hagrees
        obtain ⟨⟨⟩, _, hplace, rfl⟩ := hagrees
        rw [hplace]
        exact ⟨rfl, nofun⟩
      | error fault state =>
        rw [hread] at hagrees
        obtain ⟨s', hplace, hleaves⟩ := hagrees
        rw [hplace]
        refine ⟨?_, fun _ _ => hleaves⟩
        unfold Outcome.flushed
        dsimp only
        rw [hleaves.flush]

/-- A decoder that fails is empty. -/
theorem state_decode_of_error (h : (s.decode data strictness).result = .error fault) :
    (s.decode data strictness).state = s.flush := by
  rcases decode_cases s data strictness with ⟨_, -, hstate⟩ | ⟨hok, -⟩ | ⟨hok, -⟩
  · exact hstate
  · rw [hok] at h
    cases h
  · rw [hok] at h
    cases h

/-- A decoder that passes over an RPU of a type that is not known is as it was. -/
theorem state_decode_of_unknown (hok : (s.decode data strictness).result = .ok ())
    (hunknown : s.rpuType data ≠ some knownRpuType) : (s.decode data strictness).state = s := by
  rcases decode_cases s data strictness with ⟨_, hfault, -⟩ | ⟨-, -, hstate⟩ | ⟨-, hknown, -⟩
  · rw [hok] at hfault
    cases hfault
  · exact hstate
  · exact absurd hknown hunknown

/-- A configuration that fails changes neither the stream nor the parameters. -/
theorem state_configure_of_error {p : Parameters} {m : Option Metadata}
    {compression : Compression} {compliance : Compliance}
    (h : (s.configure p m compression compliance).result = .error fault) :
    (s.configure p m compression compliance).state = (s, p) := by
  unfold configure at h ⊢
  dsimp only at h ⊢
  split at h
  · cases h
  · rfl

end Stream

/-! ### What a stream is asked -/

/-- What a stream is asked. -/
inductive Call where
  | decode (data : List UInt8) (strictness : Strictness)
  | encode (m : Option Metadata) (options : EncodeOptions)
  | metadata

/-- What a stream answers. -/
inductive Reply where
  | decoded (result : Except Fault Unit) (notes : List Note)
  | encoded (result : Except Fault (List UInt8)) (notes : List Note)
  | exported (m : Option Metadata)

namespace LabelledStream

/-- The answer of a stream, and the stream afterwards. -/
def ask (s : LabelledStream) : Call → Reply × LabelledStream
  | .decode data strictness =>
    let decoded := s.stream.decode data strictness
    (.decoded decoded.result decoded.notes, { s with stream := decoded.state })
  | .encode m options =>
    let encoded := s.stream.encode m options
    (.encoded encoded.result encoded.notes, { s with stream := encoded.state })
  | .metadata => (.exported s.stream.metadata, s)

/-- The answers of a stream, one call after the other. -/
def replies (s : LabelledStream) : List Call → List Reply
  | [] => []
  | call :: calls => (s.ask call).1 :: (s.ask call).2.replies calls

/-- An empty stream with the name, the configuration and the choice of `s`. -/
def emptied (s : LabelledStream) : LabelledStream where
  label := s.label
  stream := { enable := s.stream.enable, configuration := s.stream.configuration }

/-- **What a failure leaves behind.**

A decoder that fails is an empty one of the same name, configuration and choice, and answers as such
whatever it is asked next; while it reads in place, at most a mapping is left behind, and it forgets
that too.  A decoder that passes over an RPU of a type that is not known, an encoder that fails or
is given nothing, and a configuration that fails have changed nothing. -/
theorem failure_leaves (s : LabelledStream) :
    (∀ data strictness fault, (s.stream.decode data strictness).result = .error fault →
      s.stream.LeavesMapping (s.stream.decodeInPlace data strictness).state ∧
      (s.stream.decodeInPlace data strictness).state.flush = s.emptied.stream ∧
      (s.ask (.decode data strictness)).2 = s.emptied ∧
      ∀ calls, (s.ask (.decode data strictness)).2.replies calls = s.emptied.replies calls) ∧
    (∀ data strictness, (s.stream.decode data strictness).result = .ok () →
      s.stream.rpuType data ≠ some Stream.knownRpuType →
        (s.ask (.decode data strictness)).2 = s) ∧
    (∀ m options, (m = none ∨ ∃ fault, (s.stream.encode m options).result = .error fault) →
      (s.ask (.encode m options)).2 = s) ∧
    (∀ p m compression compliance fault,
      (s.stream.configure p m compression compliance).result = .error fault →
        (s.stream.configure p m compression compliance).state = (s.stream, p)) ∧
    ∀ p sideData compliance fault,
      (s.stream.configureFromSource p sideData compliance).result = .error fault →
        (s.stream.configureFromSource p sideData compliance).state = (s.stream, p) := by
  refine ⟨?_, ?_, ?_, ?_, ?_⟩
  · intro data strictness fault hfault
    have hstate : (s.ask (.decode data strictness)).2 = s.emptied :=
      congrArg (LabelledStream.mk s.label) (Stream.state_decode_of_error hfault)
    obtain ⟨hplace, hleaves⟩ := s.stream.decodeInPlace_eq data strictness
    rw [← hplace, Outcome.result_flushed] at hfault
    have hleaves := hleaves fault hfault
    exact ⟨hleaves, hleaves.flush, hstate, fun calls => by rw [hstate]⟩
  · intro data strictness hok hunknown
    exact congrArg (LabelledStream.mk s.label) (Stream.state_decode_of_unknown hok hunknown)
  · rintro m options (rfl | ⟨fault, hfault⟩)
    · rfl
    · cases m with
      | none => rfl
      | some m => exact congrArg (LabelledStream.mk s.label) (Stream.state_encode_of_error hfault)
  · intro p m compression compliance fault hfault
    exact Stream.state_configure_of_error hfault
  · intro p sideData compliance fault hfault
    exact Stream.state_configure_of_error hfault

/-- The payload of an RPU that announces display management data and has none. -/
def truncatedPayload : List UInt8 :=
  Stream.identityPayload.set 8 0x6f

/-- A decoder that comes upon such an RPU has put its mapping in a slot, and forgets it together
with what it had kept before. -/
theorem failure_leaves_truncated :
    (grading.stream.decode truncatedPayload .none).result =
        .error (.unsupported .mismatchedColorIds) ∧
      (Stream.decodeInPlace { configuration := { profile := 8 } } truncatedPayload
        .none).state.slot 0 = some .identity ∧
      (grading.ask (.decode truncatedPayload .none)).2 = grading.emptied ∧
      (grading.ask (.decode truncatedPayload .none)).2.replies [.metadata] = [.exported none] := by
  have hfault : (grading.stream.decode truncatedPayload .none).result =
      .error (.unsupported .mismatchedColorIds) := by
    decide +kernel
  obtain ⟨hdecode, -⟩ := failure_leaves grading
  obtain ⟨-, -, hstate, hreplies⟩ := hdecode truncatedPayload .none _ hfault
  exact ⟨hfault, by decide +kernel, hstate, hreplies [.metadata]⟩

end LabelledStream

end DolbyVision
