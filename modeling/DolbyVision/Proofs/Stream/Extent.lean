/-
**How much of an RPU is read.**

A decoder reads an RPU from its first bit on, over the whole byte string: no bound keeps it from
going on into the tail.  Only what it has taken decides what becomes of the RPU, besides its size;
so the checksum does not matter if the reading leaves the tail alone and the checksum is not looked
at.  But an RPU is also accepted if its last parts are missing and the tail is taken for them.

Main definitions:

* `DolbyVision.Stream.bitsBehind` — the number of bits that a decoder leaves of an RPU.

Main results:

* `DolbyVision.Stream.local_readRpu` — **an RPU is read locally** among RPUs of one length;
* `DolbyVision.Stream.readRpu_congr` — **only the bits that are taken are read**;
* `DolbyVision.Stream.decode_stated` — **the stated checksum does not matter** if the tail is left
  alone;
* `DolbyVision.Stream.not_decode_stated` — an RPU whose last coefficient is read from its checksum.
-/

import DolbyVision.Proofs.Container.Nal
import DolbyVision.Proofs.Container.Tail
import DolbyVision.Proofs.Rpu.Local
import DolbyVision.Proofs.Stream.Standalone

set_option relaxedAutoImplicit false
set_option autoImplicit false

namespace DolbyVision.Stream

open Bits

variable {sized : Prop} (s : Stream) {strictness : Strictness}

/-! ### The parts of an RPU -/

theorem local_readId : Local sized readId := by
  refine local_unsignedCode.bind fun id => ?_
  split
  · exact .pure _
  · exact .throw

theorem local_checkProfile (h : Header) (reuses : Bool) :
    Local sized (s.checkProfile strictness h reuses) := by
  refine .ite (fun _ => ?_) fun _ => .ite (fun _ => ?_) fun _ => ?_
  · refine (Decoder.local_report _).bind fun _ => ?_
    exact .stop
  · refine .check fun _ => ?_
    exact .ite (fun _ => .throw) fun _ => .pure ()
  · exact .pure ()

/-- **A mapping, or the reference to one, is read locally.** -/
theorem local_readMapping (h : Header) (reuses : Bool) :
    Local sized (s.readMapping h reuses) := by
  refine local_readId.lift.bind fun id => ?_
  refine .ite (fun _ => ?_) fun _ => ?_
  · refine .ite (fun _ => ?_) fun _ => .pure _
    refine (Decoder.local_report _).bind fun _ => ?_
    exact .stop
  · refine (Mapping.local_read h _ _).lift.bind fun mapping => ?_
    exact .pure _

theorem local_readSceneRefresh : Local sized readSceneRefresh := by
  refine local_unsignedCode.bind fun flag => ?_
  refine .check fun _ => ?_
  exact .pure _

theorem local_readSourceColor (compressed : Bool) (id : Id) :
    Local sized (s.readSourceColor compressed id) := by
  refine .ite (fun _ => ?_) fun _ => ?_
  · split
    · exact .throw
    · refine local_readSceneRefresh.bind fun sceneRefresh => ?_
      exact .pure _
  · refine local_readSceneRefresh.bind fun sceneRefresh => ?_
    exact SourceColor.local_read _ sceneRefresh

theorem local_readBlocks (compressed : Bool) (kept : BlockSet) :
    Local True (readBlocks compressed strictness kept) := by
  refine (BlockGroup.local_read _ _ _ _).bind fun kept => ?_
  -- Whether there is a second group depends on the number of bits that are left.
  refine Decoder.local_bitsLeft.bind fun left => ?_
  refine .ite (fun _ => ?_) fun _ => .pure kept
  exact BlockGroup.local_read _ _ _ _

theorem local_readColor (compressed : Bool) : Local True (s.readColor compressed strictness) := by
  unfold readColor
  refine local_readId.lift.bind fun affected => ?_
  refine local_readId.lift.bind fun current => ?_
  refine .check fun _ => ?_
  refine (local_readSourceColor s compressed affected).lift.bind fun color => ?_
  refine (local_readBlocks compressed _).bind fun blocks => ?_
  exact .pure _

theorem local_readBody (rpuType : UInt8) : Local True (s.readBody strictness rpuType) := by
  unfold readBody
  refine (Header.local_read rpuType strictness).lift.bind fun h => ?_
  refine local_flag.lift.bind fun hasColor => ?_
  refine local_flag.lift.bind fun reuses => ?_
  refine .bindIf (fun _ => local_flag.lift) (fun _ => .pure false) fun compressed => ?_
  refine (local_checkProfile s h reuses).bind fun _ => ?_
  refine (local_readMapping s h reuses).bind fun s => ?_
  exact .bindIf (fun _ => local_readColor s compressed) (fun _ => .pure _) fun _ => .pure _

/-- **An RPU is read locally** among RPUs of one length. -/
theorem local_readRpu : Local True (s.readRpu strictness) := by
  refine (local_u8 6).lift.bind fun rpuType => ?_
  refine .ite (fun _ => local_readBody s rpuType) fun _ => ?_
  refine (Decoder.local_report _).bind fun _ => ?_
  exact .pure s

/-! ### What is read -/

variable {s} {d : Stream}

/-- **Only the bits that are taken are read**: what becomes of an RPU becomes of any other one of
its size that has the same bits as far as they are taken. -/
theorem readRpu_congr {rpu rpu' : List UInt8} {notes : Array Note} {state : DecoderState}
    (hrun : s.readRpu strictness ⟨Reader.ofBytes rpu, notes⟩ = .ok d state)
    (hsize : rpu'.length = rpu.length)
    (hsame : (ofBytes rpu').take (8 * rpu.length - state.reader.bitsLeft) =
      (ofBytes rpu).take (8 * rpu.length - state.reader.bitsLeft)) :
    ∃ r, s.readRpu strictness ⟨Reader.ofBytes rpu', notes⟩ = .ok d { state with reader := r } := by
  obtain ⟨hsound, bits, hunread, hmoved⟩ :=
    local_readRpu s ⟨Reader.ofBytes rpu, notes⟩ d state (Reader.sound_ofBytes rpu) hrun
  have hsplit : ofBytes rpu = bits ++ state.reader.unread := by
    rw [← Reader.unread_ofBytes]
    exact hunread
  rw [Reader.length_taken hsplit hsound, hsplit, List.take_left' rfl] at hsame
  have hsplit' : ofBytes rpu' = bits ++ (ofBytes rpu').drop bits.length := by
    conv_lhs => rw [← List.take_append_drop bits.length (ofBytes rpu'), hsame]
  have hlength := congrArg List.length hsplit
  rw [length_ofBytes, List.length_append] at hlength
  obtain ⟨r, hok, -⟩ := hmoved ((ofBytes rpu').drop bits.length)
    (fun _ => by
      change _ = state.reader.unread.length
      rw [List.length_drop, length_ofBytes, hsize]
      omega)
    (Reader.ofBytes rpu') (Reader.sound_ofBytes rpu') (by rw [Reader.unread_ofBytes, ← hsplit'])
  exact ⟨r, hok⟩

/-- The number of bits that a decoder leaves of an RPU, if it brings it to its end. -/
def bitsBehind (s : Stream) (data : List UInt8) (strictness : Strictness) : Nat :=
  match s.payload data with
  | .error _ => 0
  | .ok rpu =>
    match s.readRpu strictness ⟨Reader.ofBytes rpu, #[]⟩ with
    | .error _ _ => 0
    | .ok _ state => state.reader.bitsLeft

/-! ### The stated checksum -/

/-- An RPU with a given checksum, as the payload of a NAL unit with padding. -/
def stating (body stated : List UInt8) (zeros : Nat) : List UInt8 :=
  Nal.marker :: (body ++ stated ++ [Tail.terminator] ++ List.replicate zeros 0)

theorem payload_stating (hnal : s.configuration.profile ≠ t35Profile) (body stated : List UInt8)
    (zeros : Nat) : s.payload (stating body stated zeros) =
      .ok (body ++ stated ++ [Tail.terminator]) := by
  rw [payload, if_neg hnal, stating]
  exact Nal.rpu_append_zeros (by decide) zeros

/-- An RPU with its own checksum comes out of a NAL unit. -/
theorem payload_attach (hnal : s.configuration.profile ≠ t35Profile) (body : List UInt8) :
    s.payload (Nal.marker :: Tail.attach body) = .ok (Tail.attach body) := by
  have hstating := payload_stating hnal body (Crc32.bigEndian (Crc32.checksum body)) 0
  rwa [stating, List.replicate_zero, List.append_nil] at hstating

/-- What a decoder that does not compute the checksum makes of an RPU with a given one. -/
theorem decode_stating (hnal : s.configuration.profile ≠ t35Profile)
    (hchecks : strictness.contains .checksum = false) (body : List UInt8) {stated : List UInt8}
    (hstated : stated.length = 4) (zeros : Nat) :
    s.decode (stating body stated zeros) strictness =
      match s.readRpu strictness ⟨Reader.ofBytes (body ++ stated ++ [Tail.terminator]), #[]⟩ with
      | .ok d state => ⟨.ok (), d, state.notes.toList⟩
      | .error fault state => ⟨.error fault, s.flush, state.notes.toList⟩ := by
  unfold decode
  rw [payload_stating hnal]
  dsimp only
  rewrite [Tail.verify_unchecked hchecks body hstated]
  rfl

/-- What a decoder accepts states a checksum. -/
theorem exists_stating {data : List UInt8} (hnal : s.configuration.profile ≠ t35Profile)
    (hok : (s.decode data strictness).result = .ok ()) :
    ∃ body stated zeros, stated.length = 4 ∧ data = stating body stated zeros := by
  unfold decode payload at hok
  rw [if_neg hnal] at hok
  split at hok
  · cases hok
  · case h_2 rpu hrpu =>
    obtain ⟨zeros, hdata⟩ := Nal.eq_of_rpu hrpu
    split at hok
    · cases hok
    · case h_2 hverify =>
      obtain ⟨body, stated, hstated, hrpu'⟩ := Tail.exists_of_verify hverify
      exact ⟨body, stated, zeros, hstated, by rw [hdata, hrpu', stating]⟩

/-- **The stated checksum does not matter** to a decoder that does not compute it, if it leaves the
tail of the RPU alone: with any other one it does the same. -/
theorem decode_stated {data : List UInt8} (hnal : s.configuration.profile ≠ t35Profile)
    (hchecks : strictness.contains .checksum = false)
    (hok : (s.decode data strictness).result = .ok ()) :
    ∃ body stated zeros, stated.length = 4 ∧ data = stating body stated zeros ∧
      (8 * Tail.size ≤ s.bitsBehind data strictness → ∀ other : List UInt8, other.length = 4 →
        s.decode (stating body other zeros) strictness = s.decode data strictness) := by
  obtain ⟨body, stated, zeros, hstated, rfl⟩ := exists_stating hnal hok
  refine ⟨body, stated, zeros, hstated, rfl, fun hleft other hother => ?_⟩
  rw [decode_stating hnal hchecks body hstated] at hok ⊢
  rw [decode_stating hnal hchecks body hother]
  cases hrun : s.readRpu strictness
      ⟨Reader.ofBytes (body ++ stated ++ [Tail.terminator]), #[]⟩ with
  | error fault state =>
    rw [hrun] at hok
    cases hok
  | ok d state =>
    have hbehind : 8 * Tail.size ≤ state.reader.bitsLeft := by
      rw [bitsBehind, payload_stating hnal] at hleft
      dsimp only at hleft
      rwa [hrun] at hleft
    have hsize : (body ++ stated ++ [Tail.terminator]).length = body.length + Tail.size := by
      simp [hstated, Tail.size]
    have hsize' : (body ++ other ++ [Tail.terminator]).length = body.length + Tail.size := by
      simp [hother, Tail.size]
    -- Nothing is taken but bits of the body.
    have htaken : 8 * (body ++ stated ++ [Tail.terminator]).length - state.reader.bitsLeft ≤
        (ofBytes body).length := by
      rw [hsize, length_ofBytes]
      omega
    have hbody (tail : List UInt8) {n : Nat} (hn : n ≤ (ofBytes body).length) :
        (ofBytes (body ++ tail)).take n = (ofBytes body).take n := by
      rw [ofBytes_append, List.take_append_of_le_length hn]
    obtain ⟨r, hrun'⟩ := readRpu_congr hrun (hsize'.trans hsize.symm) (by
      generalize 8 * (body ++ stated ++ [Tail.terminator]).length - state.reader.bitsLeft = n
        at htaken ⊢
      rw [List.append_assoc, List.append_assoc, hbody _ htaken, hbody _ htaken])
    rw [hrun']

/-- The checksum of an RPU without display management data may be any other one. -/
theorem decode_stated_identity :
    ∃ body stated zeros, stated.length = 4 ∧ identityPayload = stating body stated zeros ∧
      ∀ other : List UInt8, other.length = 4 →
        decode { configuration := { profile := 8 } } (stating body other zeros) .none =
          decode { configuration := { profile := 8 } } identityPayload .none := by
  have hok : (decode { configuration := { profile := 8 } } identityPayload .none).result =
      .ok () := by decide +kernel
  obtain ⟨body, stated, zeros, hstated, hdata, hsame⟩ :=
    decode_stated (by decide) (by decide) hok
  exact ⟨body, stated, zeros, hstated, hdata, hsame (by decide +kernel)⟩

/-- An RPU without display management data, up to the fraction of its last coefficient. -/
def truncatedBody : List UInt8 :=
  [8, 0, 8, 64, 96, 54, 80, 79, 0, 63, 248, 1, 255, 192, 15, 255, 208, 0, 0, 8, 0, 0, 6, 128, 0, 0,
    64, 0, 0, 52, 0, 0, 2]

/-- **The checksum may be read as metadata**: the RPU is accepted with either of two checksums, and
the fraction of its last coefficient is the one or the other. -/
theorem not_decode_stated :
    (decode { configuration := { profile := 8 } } (stating truncatedBody [0, 0, 0, 0] 0)
        .none).state.metadata = some .identity ∧
      (decode { configuration := { profile := 8 } } (stating truncatedBody [0, 0, 2, 0] 0)
          .none).result = .ok () ∧
      (decode { configuration := { profile := 8 } } (stating truncatedBody [0, 0, 2, 0] 0)
          .none).state.metadata ≠ some .identity := by
  refine ⟨by decide +kernel, by decide +kernel, ?_⟩
  intro hsame
  have hdiffers : ((decode { configuration := { profile := 8 } }
      (stating truncatedBody [0, 0, 2, 0] 0) .none).state.metadata == some .identity) = false := by
    decide +kernel
  rw [hsame] at hdiffers
  cases hdiffers

end DolbyVision.Stream
