/-
**From an encoder to a decoder.**

An encoder wraps its RPUs as the streams of its profile carry them, and the payload comes out of the
wrapping again; only a T.35 message may hold an RPU that is larger than what its reader accepts.  A
decoder that gets the payload of a planned RPU comes into the state that the plan describes, or
refuses it and forgets what it had.

Main definitions:

* `DolbyVision.Stream.wrapping` — the options for RPUs of a stream;
* `DolbyVision.Stream.Carries` — whether the wrapping of a stream takes an RPU of a given size;
* `DolbyVision.Stream.decodeWrapped` — what a decoder makes of a wrapped RPU.

Main results:

* `DolbyVision.Plan.exists_writer` — an RPU is what a writer has written, with a tail;
* `DolbyVision.Stream.payload_of_wrap` — **a wrapped RPU comes out of its wrapping**, if it is not
  too large;
* `DolbyVision.Stream.decode_of_accepts` — **a decoder comes into the state that a plan describes**;
* `DolbyVision.Stream.decode_of_refuses` — a decoder that refuses an RPU is flushed;
* `DolbyVision.Stream.decodeWrapped_of_accepts`, `DolbyVision.Stream.decodeWrapped_of_refuses`,
  `DolbyVision.Stream.decodeWrapped_of_large` — the same of what comes wrapped.
-/

import DolbyVision.Proofs.Container.Nal
import DolbyVision.Proofs.Container.T35
import DolbyVision.Proofs.Container.Tail
import DolbyVision.Proofs.Stream.Received
import DolbyVision.Stream.RoundTrip

set_option relaxedAutoImplicit false
set_option autoImplicit false

namespace DolbyVision

open Bits

/-! ### The bytes of an RPU -/

namespace Plan

variable {p : Plan} {rpu : List UInt8}

/-- An RPU is what a writer has written, with a tail. -/
theorem exists_writer (hrpu : p.rpu = .ok rpu) :
    ∃ w body, p.put Writer.empty = .ok w ∧ w.finish = .ok body ∧ rpu = Tail.attach body := by
  obtain ⟨w, hput, hrpu⟩ := Checked.ok_of_bind hrpu
  obtain ⟨body, hfinish, hrpu⟩ := Checked.ok_of_bind hrpu
  exact ⟨w, body, hput, hfinish, (Except.ok.inj hrpu).symm⟩

theorem rpu_eq {w : Writer} {body : List UInt8} (hput : p.put Writer.empty = .ok w)
    (hfinish : w.finish = .ok body) : p.rpu = .ok (Tail.attach body) := by
  rw [Plan.rpu, Checked.bind_ok hput, Checked.bind_ok hfinish]
  rfl

/-- An RPU has its type in front of its tail. -/
theorem length_body_pos {w : Writer} {body : List UInt8} (hvalid : p.Valid)
    (hput : p.put Writer.empty = .ok w) (hfinish : w.finish = .ok body) : 0 < body.length := by
  obtain ⟨w₁, w₂, w₃, hheader, hflags, hmapping, hput⟩ := Stream.ok_put hput
  obtain ⟨w₀, htype, hread⟩ : ∃ w₀, Writer.empty.put 6 p.metadata.header.rpuType.toNat = .ok w₀ ∧
      Conveys 0 w₀ w₁ (Header.read p.metadata.header.rpuType .none) _ :=
    Header.conveys hvalid.header hheader
  have h₁ := hread.start.length_le
  have h₂ := congrArg List.length ((appends_putFlags p).written hflags)
  have h₃ := (Stream.putFlags_start hvalid hmapping hput).length_le
  have hbits := congrArg List.length (Writer.ofBytes_of_finish hfinish)
  rw [length_ofBytes, List.length_append] at hbits
  rw [(Writer.written_of_put htype).2, List.length_append, length_toBits] at h₁
  rw [List.length_append] at h₂
  omega

/-- An RPU has at least the size that the reader of a container asks for. -/
theorem minPayload_le (hvalid : p.Valid) (hrpu : p.rpu = .ok rpu) :
    T35.minPayload ≤ rpu.length := by
  obtain ⟨w, body, hput, hfinish, rfl⟩ := exists_writer hrpu
  have hpos := length_body_pos hvalid hput hfinish
  rw [Tail.length_attach]
  unfold T35.minPayload Tail.size
  omega

/-- The number of bits of an RPU. -/
theorem length_attach {w : Writer} {body : List UInt8} (hfinish : w.finish = .ok body) :
    8 * (Tail.attach body).length = Stream.rpuBits w := by
  have hbits := congrArg List.length (Writer.ofBytes_of_finish hfinish)
  rw [length_ofBytes, List.length_append, List.length_replicate] at hbits
  have hlength := Tail.length_attach body
  unfold Stream.rpuBits
  omega

/-- A plan without the blocks of the second group. -/
def withoutSecond (p : Plan) : Plan :=
  { p with
    blocks := {
      static := p.blocks.static.filter fun b => b.group == .first
      dynamic := p.blocks.dynamic.filter fun b => b.group == .first } }

theorem sentBlocks_withoutSecond (group : BlockGroup) :
    p.withoutSecond.sentBlocks group =
      (p.sentBlocks group).filter fun b => b.group == .first := by
  unfold sentBlocks BlockSet.toList withoutSecond
  rw [← List.filter_append, List.filter_comm]

theorem putBlocks_withoutSecond {w w' : Writer}
    (hfirst : BlockGroup.put w (p.sentBlocks .first) = .ok w') :
    p.withoutSecond.putBlocks w = .ok w' := by
  have hsame : p.withoutSecond.sentBlocks .first = p.sentBlocks .first := by
    rw [sentBlocks_withoutSecond, List.filter_eq_self]
    intro b hb
    rw [(Stream.mem_sentBlocks hb).1]
    rfl
  have hnone : p.withoutSecond.sentBlocks .second = [] := by
    rw [sentBlocks_withoutSecond, List.filter_eq_nil_iff]
    intro b hb
    rw [(Stream.mem_sentBlocks hb).1]
    decide
  unfold putBlocks
  rw [hsame, hnone, hfirst]
  rfl

/-- **The second group of blocks comes last in an RPU**, behind what the RPU would be without it. -/
theorem put_second {w w' : Writer} (hhas : p.hasColor = true)
    (hsome : (p.sentBlocks .second).isEmpty = false) (hput : p.put w = .ok w') :
    ∃ w₁, p.withoutSecond.put w = .ok w₁ ∧ BlockGroup.put w₁ (p.sentBlocks .second) = .ok w' := by
  obtain ⟨w₁, w₂, w₃, hheader, hflags, hmapping, hput⟩ := Stream.ok_put hput
  rw [if_pos hhas] at hput
  obtain ⟨v₁, v₂, v₃, v₄, hfirst, hrepeat, hrefresh, hcolor, hblocks⟩ := Stream.ok_putColor hput
  obtain ⟨w₄, hgroup, hsecond⟩ := Checked.ok_of_bind hblocks
  dsimp only at hsecond
  rw [hsome, if_neg Bool.false_ne_true] at hsecond
  refine ⟨w₄, ?_, hsecond⟩
  -- Only the second group is left out, so every other write is the same.
  have hparts : p.withoutSecond.put w =
      if p.hasColor then p.withoutSecond.putColor w₃ else return w₃ :=
    Stream.put_of_parts hheader hflags hmapping
  have hrest : p.withoutSecond.putColor w₃ = p.withoutSecond.putBlocks v₄ :=
    Stream.putColor_of_parts hfirst hrepeat hrefresh hcolor
  rw [hparts, if_pos hhas, hrest, putBlocks_withoutSecond hgroup]

end Plan

namespace Stream

variable {s d : Stream} {p : Plan} {strictness : Strictness}

/-! ### Wrapping -/

/-- The options for RPUs of a stream: a T.35 message or the payload of a NAL unit, as its profile
asks for. -/
def wrapping (s : Stream) (compress : Bool) : EncodeOptions where
  nal := s.configuration.profile != t35Profile
  t35 := s.configuration.profile == t35Profile
  compress

/-- Whether the wrapping of a stream takes an RPU of a given size back to a decoder. -/
def Carries (s : Stream) (size : Nat) : Prop :=
  s.configuration.profile = t35Profile → size ≤ T35.maxPayload

/-- What a stream wraps can be unwrapped: a message gives a container, and a NAL unit a payload. -/
theorem unwrap_of_wrap {compress : Bool} {rpu wrapped : List UInt8}
    (hwrap : (s.wrapping compress).wrap rpu = .ok wrapped)
    (hsame : d.configuration = s.configuration) :
    (s.configuration.profile = t35Profile ∧ rpu.length ≤ T35.maxSize ∧
        d.unwrap wrapped = .ok ((T35.message rpu).drop T35.provider.length)) ∨
      (s.configuration.profile ≠ t35Profile ∧
        d.unwrap wrapped = .ok (Nal.unwrap (Nal.wrap rpu))) := by
  unfold EncodeOptions.wrap wrapping at hwrap
  unfold unwrap
  rw [hsame]
  dsimp only at hwrap
  by_cases ht35 : s.configuration.profile = t35Profile
  · rw [if_pos (beq_iff_eq.2 ht35)] at hwrap
    obtain ⟨hmax, hout⟩ := T35.wrap_eq_ok hwrap
    exact Or.inl ⟨ht35, hmax, by rw [if_pos ht35, hout, T35.unwrap_message]⟩
  · have hnal : (s.configuration.profile != t35Profile) = true := bne_iff_ne.2 ht35
    rw [if_neg (by rwa [beq_iff_eq]), if_pos hnal] at hwrap
    exact Or.inr ⟨ht35, by rw [if_neg ht35, Except.ok.inj hwrap]⟩

/-- **A wrapped RPU comes out of its wrapping**, if it is not too large. -/
theorem payload_of_wrap {compress : Bool} {rpu wrapped : List UInt8} (hvalid : p.Valid)
    (hrpu : p.rpu = .ok rpu) (hwrap : (s.wrapping compress).wrap rpu = .ok wrapped)
    (hsame : d.configuration = s.configuration) (hcarries : s.Carries rpu.length) :
    ∃ data, d.unwrap wrapped = .ok data ∧ d.payload data = .ok rpu := by
  unfold payload
  rw [hsame]
  rcases unwrap_of_wrap hwrap hsame with ⟨ht35, -, hdata⟩ | ⟨hnal, hdata⟩
  · refine ⟨_, hdata, ?_⟩
    rw [if_pos ht35]
    exact T35.rpu_of_message (Plan.minPayload_le hvalid hrpu) (hcarries ht35)
  · refine ⟨_, hdata, ?_⟩
    rw [if_neg hnal]
    obtain ⟨w, body, -, -, rfl⟩ := Plan.exists_writer hrpu
    exact Nal.rpu_unwrap_wrap (by decide)

/-- A message whose RPU is too large is refused. -/
theorem payload_of_large {compress : Bool} {rpu wrapped : List UInt8}
    (hwrap : (s.wrapping compress).wrap rpu = .ok wrapped)
    (hsame : d.configuration = s.configuration) (hlarge : ¬ s.Carries rpu.length) :
    ∃ data, d.unwrap wrapped = .ok data ∧
      d.payload data = .error (.malformed .emdfPayloadSize) := by
  unfold Carries at hlarge
  rw [Classical.not_imp, Nat.not_le] at hlarge
  unfold payload
  rw [hsame]
  rcases unwrap_of_wrap hwrap hsame with ⟨ht35, hmax, hdata⟩ | ⟨hnal, -⟩
  · refine ⟨_, hdata, ?_⟩
    rw [if_pos ht35]
    exact T35.rpu_of_large_message hlarge.2 hmax
  · exact absurd hlarge.1 hnal

/-! ### Decoding -/

/-- The bits in front of which a decoder of an RPU starts. -/
theorem unread_attach {w : Writer} {body : List UInt8} {bits : List Bool}
    (hfinish : w.finish = .ok body) (hbits : w.written = Writer.empty.written ++ bits) :
    ∃ rest, (Reader.ofBytes (Tail.attach body)).unread = bits ++ rest ∧
      w.written.length + rest.length = rpuBits w := by
  rw [Writer.written_empty, List.nil_append] at hbits
  refine ⟨List.replicate (padding w.written.length) false ++
    ofBytes (Crc32.bigEndian (Crc32.checksum body) ++ [Tail.terminator]), ?_, ?_⟩
  · rw [Reader.unread_ofBytes, Tail.attach, List.append_assoc, ofBytes_append,
      Writer.ofBytes_of_finish hfinish, List.append_assoc, ← hbits]
  · rw [List.length_append, List.length_replicate, length_ofBytes]
    unfold rpuBits
    change _ + (_ + 8 * 5) = _ + 8 * 5
    omega

/-- **A decoder comes into the state that a plan describes**, if it has what the plan refers to. -/
theorem decode_of_accepts {rpu data : List UInt8} (hvalid : p.Valid) (hrpu : p.rpu = .ok rpu)
    (hpayload : d.payload data = .ok rpu) (ha : d.Accepts p strictness) :
    d.decode data strictness = ⟨.ok (), d.receive p, []⟩ := by
  obtain ⟨w, body, hput, hfinish, rfl⟩ := Plan.exists_writer hrpu
  have hconveys : Conveys (rpuBits w) Writer.empty w (d.readRpu strictness) (d.receive p) :=
    conveys_rpu hvalid ha hput rfl
  obtain ⟨bits, hbits, hreads⟩ := hconveys
  obtain ⟨rest, hunread, hlength⟩ := unread_attach hfinish hbits
  let state : DecoderState := ⟨Reader.ofBytes (Tail.attach body), #[]⟩
  obtain ⟨r, hrun, -⟩ := hreads rest hlength state (Reader.sound_ofBytes _) hunread
  simp only [decode, hpayload, Tail.verify_attach]
  rw [hrun]
  rfl

/-- A decoder that refuses an RPU is flushed. -/
theorem decode_of_refuses {rpu data : List UInt8} {fault : Fault} (hrpu : p.rpu = .ok rpu)
    (hpayload : d.payload data = .ok rpu)
    (hrefuses : ∀ w, p.put Writer.empty = .ok w →
      Refuses (rpuBits w) Writer.empty w (d.readRpu strictness) fault) :
    (d.decode data strictness).result = .error fault ∧
      (d.decode data strictness).state = d.flush := by
  obtain ⟨w, body, hput, hfinish, rfl⟩ := Plan.exists_writer hrpu
  obtain ⟨bits, hbits, hfails⟩ := hrefuses w hput
  obtain ⟨rest, hunread, hlength⟩ := unread_attach hfinish hbits
  let state : DecoderState := ⟨Reader.ofBytes (Tail.attach body), #[]⟩
  obtain ⟨s', hrun⟩ := hfails rest hlength state (Reader.sound_ofBytes _) hunread
  simp only [decode, hpayload, Tail.verify_attach]
  rw [hrun]
  exact ⟨rfl, rfl⟩

/-- Data without an RPU is refused, and the decoder is flushed. -/
theorem decode_of_no_payload {data : List UInt8} {fault : Fault}
    (hpayload : d.payload data = .error fault) :
    d.decode data strictness = ⟨.error fault, d.flush, []⟩ := by
  simp only [decode, hpayload]

/-! ### Decoding what was wrapped -/

/-- Takes an RPU out of its wrapping and decodes it. -/
def decodeWrapped (d : Stream) (wrapped : List UInt8) (strictness : Strictness) :
    Outcome Stream Unit :=
  match d.unwrap wrapped with
  | .ok data => d.decode data strictness
  | .error fault => ⟨.error fault, d, []⟩

theorem decodeWrapped_eq {wrapped data : List UInt8} (hdata : d.unwrap wrapped = .ok data) :
    d.decodeWrapped wrapped strictness = d.decode data strictness := by
  unfold decodeWrapped
  rw [hdata]

variable {compress : Bool} {rpu wrapped : List UInt8}

/-- **A decoder comes into the state that a plan describes**, if the wrapping carries the RPU and
the decoder has what it refers to. -/
theorem decodeWrapped_of_accepts (hvalid : p.Valid) (hrpu : p.rpu = .ok rpu)
    (hwrap : (s.wrapping compress).wrap rpu = .ok wrapped)
    (hsame : d.configuration = s.configuration) (hcarries : s.Carries rpu.length)
    (ha : d.Accepts p strictness) :
    d.decodeWrapped wrapped strictness = ⟨.ok (), d.receive p, []⟩ := by
  obtain ⟨data, hdata, hpayload⟩ := payload_of_wrap hvalid hrpu hwrap hsame hcarries
  rw [decodeWrapped_eq hdata]
  exact decode_of_accepts hvalid hrpu hpayload ha

/-- It refuses what its reader refuses. -/
theorem decodeWrapped_of_refuses {fault : Fault} (hvalid : p.Valid) (hrpu : p.rpu = .ok rpu)
    (hwrap : (s.wrapping compress).wrap rpu = .ok wrapped)
    (hsame : d.configuration = s.configuration) (hcarries : s.Carries rpu.length)
    (hrefuses : ∀ w, p.put Writer.empty = .ok w →
      Refuses (rpuBits w) Writer.empty w (d.readRpu strictness) fault) :
    (d.decodeWrapped wrapped strictness).result = .error fault := by
  obtain ⟨data, hdata, hpayload⟩ := payload_of_wrap hvalid hrpu hwrap hsame hcarries
  rw [decodeWrapped_eq hdata]
  exact (decode_of_refuses hrpu hpayload hrefuses).1

/-- It refuses an RPU that its wrapping does not carry. -/
theorem decodeWrapped_of_large (hwrap : (s.wrapping compress).wrap rpu = .ok wrapped)
    (hsame : d.configuration = s.configuration) (hlarge : ¬ s.Carries rpu.length) :
    (d.decodeWrapped wrapped strictness).result = .error (.malformed .emdfPayloadSize) := by
  obtain ⟨data, hdata, hpayload⟩ := payload_of_large hwrap hsame hlarge
  rw [decodeWrapped_eq hdata, decode_of_no_payload hpayload]

end Stream

end DolbyVision
