/-
**Contexts with a buffer.**

A decoder or an encoder does not allocate room for each RPU.  It keeps a buffer, into which the
payload of a T.35 message is copied and in which an RPU is written; what earlier RPUs left there is
overwritten.  Nothing in the buffer, and no name, has a part in any answer: a context answers as the
stream in it does.  Hence a context that takes over the fields of another one cannot be told from
it, whatever it held before.

What a read or a write that fails leaves in the buffer depends on how far it came.  Nothing is
assumed about that: `Leftover` may be anything.

Main definitions:

* `DolbyVision.T35.containerInto` — reading a container into a buffer;
* `DolbyVision.Operation`, `DolbyVision.Answer` — what a decoder or an encoder is asked;
* `DolbyVision.Context` — a named stream with a buffer;
* `DolbyVision.Context.replaceBy` — taking over the fields of another context;
* `DolbyVision.Context.answers` — the answers to one operation after the other.

Main results:

* `DolbyVision.T35.containerInto_eq`, `DolbyVision.Bits.Writer.reusing_eq_empty` — a buffer is as
  good as a new one;
* `DolbyVision.Context.perform_eq` — one operation does to the stream what it does without a buffer;
* `DolbyVision.Context.answers_replaceBy` — **a context that replaced its state by that of another
  one answers as that one**.
-/

import DolbyVision.Proofs.Stream.Failure
import DolbyVision.Proofs.Stream.Plan

set_option relaxedAutoImplicit false
set_option autoImplicit false

namespace DolbyVision

open Bits

/-! ### Reusing a buffer -/

/-- A writer in the place of a buffer has forgotten what the buffer held. -/
theorem Bits.Writer.reusing_eq_empty (buffer : Array UInt8) :
    Writer.reusing buffer = Writer.empty := by
  have hclear : buffer.shrink 0 = #[] := by simp
  unfold Writer.reusing Writer.empty
  congr

namespace T35

/-- Reads bytes behind those of a buffer. -/
def readInto (buffer : Array UInt8) : Nat → BitParser (Array UInt8)
  | 0 => return buffer
  | n + 1 => do
    let byte ← Reader.u8 8
    readInto (buffer.push byte) n

theorem readInto_eq (buffer : Array UInt8) (n : Nat) :
    readInto buffer n = (fun bytes => buffer ++ bytes.toArray) <$> Reader.list n (Reader.u8 8) := by
  induction n generalizing buffer with
  | zero => simp only [readInto, Reader.list, map_pure, Array.append_empty]
  | succ n ih => simp [readInto, Reader.list, ih]

/-- Reads a container, with its payload in the place of what a buffer holds. -/
def containerInto (buffer : Array UInt8) : BitParser (Array UInt8) := do
  if (← Reader.bits32 27) ≠ head then
    throw (.malformed .emdfHeader)
  let size ← readSize
  if size < minPayload ∨ maxPayload < size then
    throw (.malformed .emdfPayloadSize)
  if (← get).bitsLeft < (← Checked.mul 64 8 size) then
    throw (.malformed .emdfPayloadOverrun)
  let payload ← readInto (buffer.shrink 0) size
  if (← Reader.bits32 17) ≠ protection then
    throw (.malformed .emdfProtection)
  return payload

/-- Reading into a buffer gives the payload and nothing of what the buffer held. -/
theorem containerInto_eq (buffer : Array UInt8) :
    containerInto buffer = List.toArray <$> container := by
  have hclear : buffer.shrink 0 = #[] := by simp
  unfold containerInto container
  simp only [hclear, readInto_eq, Array.empty_append, map_bind, Run.map_check, bind_map_left,
    map_pure]

end T35

/-! ### Operations -/

/-- What a decoder or an encoder is asked: to answer a call, to settle the configuration of a stream
of given parameters, or to forget what RPUs left behind. -/
inductive Operation where
  | call (call : Call)
  | configure (p : Parameters) (m : Option Metadata) (compression : Compression)
      (compliance : Compliance)
  | flush

/-- What it answers.  The answer to a configuration includes the parameters afterwards. -/
inductive Answer where
  | replied (reply : Reply)
  | configured (result : Except Fault Unit) (notes : List Note) (p : Parameters)
  | flushed

namespace LabelledStream

variable {s t : LabelledStream}

/-- The answer of a stream, and the stream afterwards. -/
def perform (s : LabelledStream) : Operation → Answer × LabelledStream
  | .call call => (.replied (s.ask call).1, (s.ask call).2)
  | .configure p m compression compliance =>
    let settled := s.stream.configure p m compression compliance
    (.configured settled.result settled.notes settled.state.2,
      { s with stream := settled.state.1 })
  | .flush => (.flushed, { s with stream := s.stream.flush })

/-- The answers of a stream, one operation after the other. -/
def answers (s : LabelledStream) : List Operation → List Answer
  | [] => []
  | op :: ops => (s.perform op).1 :: (s.perform op).2.answers ops

/-- The stream after some operations. -/
def after (s : LabelledStream) (ops : List Operation) : LabelledStream :=
  ops.foldl (fun s op => (s.perform op).2) s

/-- The name of a stream has no part in its answers. -/
theorem perform_congr (h : s.stream = t.stream) (op : Operation) :
    (s.perform op).1 = (t.perform op).1 ∧
      (s.perform op).2.stream = (t.perform op).2.stream := by
  cases op with
  | call call => cases call <;> simp only [perform, ask, h, and_self]
  | configure p m compression compliance => simp only [perform, h, and_self]
  | flush => simp only [perform, h, and_self]

theorem answers_congr (h : s.stream = t.stream) (ops : List Operation) :
    s.answers ops = t.answers ops ∧ (s.after ops).stream = (t.after ops).stream := by
  induction ops generalizing s t with
  | nil => exact ⟨rfl, h⟩
  | cons op ops ih =>
    obtain ⟨hanswer, hstream⟩ := perform_congr h op
    obtain ⟨hanswers, hafter⟩ := ih hstream
    exact ⟨congrArg₂ List.cons hanswer hanswers, hafter⟩

end LabelledStream

/-! ### Contexts -/

/-- A named stream with the buffer that is used for its RPUs. -/
structure Context extends LabelledStream where
  buffer : Array UInt8 := #[]

/-- What the buffer of a context holds after a read or a write that came to no end. -/
abbrev Leftover := Context → Operation → Array UInt8

namespace Context

/-- The RPU in what a container holds, and the buffer afterwards.  Only the payload of a T.35
message is copied. -/
def payload (c : Context) (left : Array UInt8) (data : List UInt8) :
    Except Fault (List UInt8) × Array UInt8 :=
  if c.stream.configuration.profile = Stream.t35Profile then
    match T35.containerInto c.buffer (Reader.ofBytes data) with
    | .ok buffer _ => (.ok buffer.toList, buffer)
    | .error fault _ => (.error fault, left)
  else (Nal.rpu data, c.buffer)

/-- Decodes what a container of the stream holds. -/
def decode (c : Context) (left : Array UInt8) (data : List UInt8) (strictness : Strictness) :
    Outcome Context Unit :=
  let (payload, buffer) := c.payload left data
  match payload with
  | .error fault => ⟨.error fault, { c with stream := c.stream.flush, buffer }, []⟩
  | .ok rpu =>
    match Tail.verify rpu strictness with
    | (.error fault, notes) => ⟨.error fault, { c with stream := c.stream.flush, buffer }, notes⟩
    | (.ok (), notes) =>
      match c.stream.readRpu strictness ⟨Reader.ofBytes rpu, notes.toArray⟩ with
      | .ok s state => ⟨.ok (), { c with stream := s, buffer }, state.notes.toList⟩
      | .error fault state =>
        ⟨.error fault, { c with stream := c.stream.flush, buffer }, state.notes.toList⟩

/-- What is planned for some metadata, and the RPU that a writer in the place of the buffer has
written. -/
def write (c : Context) (m : Metadata) (options : EncodeOptions) :
    Except Fault (Plan × List UInt8) := do
  let plan ← c.stream.plan m options
  let w ← plan.put (Writer.reusing c.buffer)
  return (plan, Tail.attach (← w.finish))

/-- Encodes the metadata of a frame.  An RPU that is not wrapped is the buffer itself, which is
given away. -/
def encode (c : Context) (left : Array UInt8) (m : Option Metadata) (options : EncodeOptions) :
    Outcome Context (List UInt8) :=
  match m with
  | none => ⟨.ok [], c, []⟩
  | some m =>
    match c.write m options with
    | .error fault => ⟨.error fault, { c with buffer := left }, []⟩
    | .ok (plan, rpu) =>
      match options.wrap rpu with
      | .error fault => ⟨.error fault, { c with buffer := rpu.toArray }, []⟩
      | .ok out =>
        let buffer := if options.t35 || options.nal then rpu.toArray else #[]
        ⟨.ok out, { c with stream := c.stream.commit plan, buffer }, [.generated rpu.length]⟩

/-- The answer of a context, and the context afterwards. -/
def perform (c : Context) (left : Array UInt8) : Operation → Answer × Context
  | .call (.decode data strictness) =>
    let decoded := c.decode left data strictness
    (.replied (.decoded decoded.result decoded.notes), decoded.state)
  | .call (.encode m options) =>
    let encoded := c.encode left m options
    (.replied (.encoded encoded.result encoded.notes), encoded.state)
  | .call .metadata => (.replied (.exported c.stream.metadata), c)
  | .configure p m compression compliance =>
    let settled := c.stream.configure p m compression compliance
    (.configured settled.result settled.notes settled.state.2,
      { c with stream := settled.state.1 })
  | .flush => (.flushed, { c with stream := c.stream.flush })

/-- The answers of a context, one operation after the other. -/
def answers (leftover : Leftover) (c : Context) : List Operation → List Answer
  | [] => []
  | op :: ops =>
    (c.perform (leftover c op) op).1 :: answers leftover (c.perform (leftover c op) op).2 ops

/-- The context after some operations. -/
def after (leftover : Leftover) (c : Context) (ops : List Operation) : Context :=
  ops.foldl (fun c op => (c.perform (leftover c op) op).2) c

/-- Takes over the fields of another context.  The name and the buffer stay. -/
def replaceBy (c other : Context) : Context :=
  { c with stream := { c.stream with
      enable := other.stream.enable
      configuration := other.stream.configuration
      header := other.stream.header
      active := other.stream.active
      view := other.stream.view
      blocks := other.stream.blocks
      color := other.stream.color
      slots := other.stream.slots } }

/-- These are all fields of the stream. -/
theorem toLabelledStream_replaceBy (c other : Context) :
    (c.replaceBy other).toLabelledStream =
      c.toLabelledStream.replaceBy other.toLabelledStream :=
  rfl

/-! ### A buffer has no part in an answer -/

/-- The payload of a message does not depend on the buffer into which it is copied. -/
theorem payload_eq (c : Context) (left : Array UInt8) (data : List UInt8) :
    (c.payload left data).1 = c.stream.payload data := by
  unfold payload Stream.payload T35.rpu
  split
  · rw [T35.containerInto_eq]
    cases hread : T35.container (Reader.ofBytes data) with
    | ok bytes r => rw [map_eq_pure_bind, Run.bind_ok hread]; rfl
    | error fault r => rw [map_eq_pure_bind, Run.bind_error hread]
  · rfl

/-- Decoding with a buffer is decoding. -/
theorem decode_eq (c : Context) (left : Array UInt8) (data : List UInt8)
    (strictness : Strictness) :
    (c.decode left data strictness).result = (c.stream.decode data strictness).result ∧
      (c.decode left data strictness).notes = (c.stream.decode data strictness).notes ∧
      (c.decode left data strictness).state.toLabelledStream =
        { c.toLabelledStream with stream := (c.stream.decode data strictness).state } := by
  have hpayload := c.payload_eq left data
  unfold decode Stream.decode
  rw [← hpayload]
  generalize c.payload left data = read
  obtain ⟨fault | rpu, buffer⟩ := read
  · exact ⟨rfl, rfl, rfl⟩
  · dsimp only
    obtain ⟨fault | ⟨⟨⟩⟩, notes⟩ := Tail.verify rpu strictness
    · exact ⟨rfl, rfl, rfl⟩
    · dsimp only
      cases c.stream.readRpu strictness ⟨Reader.ofBytes rpu, notes.toArray⟩ <;>
        exact ⟨rfl, rfl, rfl⟩

/-- Encoding with a buffer is encoding. -/
theorem encode_eq (c : Context) (left : Array UInt8) (m : Option Metadata)
    (options : EncodeOptions) :
    (c.encode left m options).result = (c.stream.encode m options).result ∧
      (c.encode left m options).notes = (c.stream.encode m options).notes ∧
      (c.encode left m options).state.toLabelledStream =
        { c.toLabelledStream with stream := (c.stream.encode m options).state } := by
  cases m with
  | none => exact ⟨rfl, rfl, rfl⟩
  | some m =>
    unfold encode Stream.encode write Plan.rpu
    rw [Writer.reusing_eq_empty]
    dsimp only
    cases hplan : c.stream.plan m options with
    | error fault => exact ⟨rfl, rfl, rfl⟩
    | ok plan =>
      cases hput : plan.put Writer.empty with
      | error fault => simp [hput, bind, Except.bind]
      | ok w =>
        obtain ⟨body, hfinish, -⟩ := w.exists_finish
        cases hwrap : options.wrap (Tail.attach body) <;>
          simp [hput, hfinish, hwrap, bind, Except.bind, pure, Except.pure]

/-- **An operation of a context does to the stream what it does without a buffer.** -/
theorem perform_eq (c : Context) (left : Array UInt8) (op : Operation) :
    (c.perform left op).1 = (c.toLabelledStream.perform op).1 ∧
      (c.perform left op).2.toLabelledStream = (c.toLabelledStream.perform op).2 := by
  cases op with
  | call call =>
    cases call with
    | decode data strictness =>
      obtain ⟨hresult, hnotes, hstate⟩ := c.decode_eq left data strictness
      refine ⟨?_, hstate⟩
      simp only [perform, LabelledStream.perform, LabelledStream.ask, hresult, hnotes]
    | encode m options =>
      obtain ⟨hresult, hnotes, hstate⟩ := c.encode_eq left m options
      refine ⟨?_, hstate⟩
      simp only [perform, LabelledStream.perform, LabelledStream.ask, hresult, hnotes]
    | metadata => exact ⟨rfl, rfl⟩
  | configure p m compression compliance => exact ⟨rfl, rfl⟩
  | flush => exact ⟨rfl, rfl⟩

/-- A context answers as the stream in it does, whatever faults leave in its buffer. -/
theorem answers_eq (leftover : Leftover) (c : Context) (ops : List Operation) :
    c.answers leftover ops = c.toLabelledStream.answers ops ∧
      (c.after leftover ops).toLabelledStream = c.toLabelledStream.after ops := by
  induction ops generalizing c with
  | nil => exact ⟨rfl, rfl⟩
  | cons op ops ih =>
    obtain ⟨hanswer, hstate⟩ := c.perform_eq (leftover c op) op
    obtain ⟨hanswers, hafter⟩ := ih (c.perform (leftover c op) op).2
    rw [hstate] at hanswers hafter
    exact ⟨congrArg₂ List.cons hanswer hanswers, hafter⟩

/-- **A context that replaced its state by that of another one answers as that one**, operation for
operation, and both are left with the same stream.  Neither the names nor the buffers have a part in
that, nor what the context held before, nor what faults leave in the buffers: the other context
answers as a stream without a name and a buffer does. -/
theorem answers_replaceBy (leftover leftover' : Leftover) (c other : Context)
    (ops : List Operation) :
    (c.replaceBy other).answers leftover ops = other.answers leftover' ops ∧
      ((c.replaceBy other).after leftover ops).stream = (other.after leftover' ops).stream ∧
      other.answers leftover' ops =
        ({ stream := other.stream } : LabelledStream).answers ops := by
  obtain ⟨hanswers, hafter⟩ := answers_eq leftover (c.replaceBy other) ops
  obtain ⟨hanswers', hafter'⟩ := answers_eq leftover' other ops
  rw [toLabelledStream_replaceBy] at hanswers hafter
  -- Both have the same stream and different names.
  obtain ⟨hsame, hsame'⟩ := LabelledStream.answers_congr
    (s := c.toLabelledStream.replaceBy other.toLabelledStream) (t := other.toLabelledStream) rfl ops
  obtain ⟨hbare, -⟩ := LabelledStream.answers_congr
    (s := other.toLabelledStream) (t := { stream := other.stream }) rfl ops
  refine ⟨?_, ?_, ?_⟩
  · rw [hanswers, hanswers', hsame]
  · rw [hafter, hafter', hsame']
  · rw [hanswers', hbare]

end Context

end DolbyVision
