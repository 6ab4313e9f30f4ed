/-
**RPUs that differ in their blocks.**

What stands in front of the blocks of an RPU is read before any of them, and where the second group
begins, if there is one, shows only in the number of bits that are left.  So an RPU that a decoder
accepts without blocks is accepted with any number of them in either group, whatever else stands
between them, and leaves the same state but for its blocks: those are the first ones of each sort.

Main definitions:

* `DolbyVision.Stream.readHead` — an RPU up to its blocks;
* `DolbyVision.Stream.headBits` — the bits of that part;
* `DolbyVision.Stream.IsBody` — what stands in front of the blocks, and the items of both groups.

Main results:

* `DolbyVision.Stream.reads_of_headBits` — **the head is read wherever its bits stand**;
* `DolbyVision.Stream.readRpu_of_head` — an RPU whose head and blocks are read;
* `DolbyVision.Stream.exists_readBlocks` — **both groups are read**, and the first blocks of each
  sort are kept;
* `DolbyVision.Stream.decode_carrying` — **an RPU is accepted with blocks if it is accepted
  without**.
-/

import DolbyVision.Proofs.Rpu.Items
import DolbyVision.Proofs.Stream.Extent

set_option relaxedAutoImplicit false
set_option autoImplicit false

namespace DolbyVision.Stream

open Bits

/-! ### The head of an RPU -/

/-- What an RPU says in front of its mapping. -/
structure Flags where
  rpuType : UInt8
  header : Header
  hasColor : Bool
  reuses : Bool
  compressed : Bool

/-- An RPU with a mapping and display management data that refer to nothing. -/
def Flags.isOwn (flags : Flags) : Bool :=
  flags.rpuType == knownRpuType && flags.hasColor && !flags.reuses && !flags.compressed

/-- What an RPU that refers to nothing says in front of its blocks. -/
structure Head where
  flags : Flags
  id : Id
  mapping : Mapping
  color : SourceColor

/-- What such an RPU says with given blocks. -/
def Head.withBlocks (a : Head) (blocks : BlockSet) : Standalone where
  header := a.flags.header
  id := a.id
  mapping := a.mapping
  color := some (a.color, blocks)

/-- Reads an RPU up to its mapping. -/
def readFlags (compresses : Bool) (strictness : Strictness) : BitParser Flags := do
  let rpuType ← Reader.u8 6
  let header ← Header.read rpuType strictness
  let hasColor ← Reader.flag
  let reuses ← Reader.flag
  let compressed ← if compresses then Reader.flag else pure false
  return { rpuType, header, hasColor, reuses, compressed }

/-- Reads an RPU that refers to nothing up to its blocks. -/
def readHead (compresses : Bool) (strictness : Strictness) : BitParser Head := do
  let flags ← readFlags compresses strictness
  let id ← readId
  let mapping ← Mapping.read flags.header id.val flags.header.usesNlq
  let affected ← readId
  let current ← readId
  if affected ≠ current then
    throw (.unsupported .mismatchedColorIds)
  let color ← readSourceColor {} false affected
  return { flags, id, mapping, color }

/-- The bits of an RPU up to its blocks, if it has display management data and refers to
nothing. -/
def headBits (s : Stream) (strictness : Strictness) (rpu : List UInt8) : Option (List Bool) :=
  match readHead s.compresses strictness (Reader.ofBytes rpu) with
  | .ok a r =>
    if a.flags.isOwn then some ((ofBytes rpu).take (8 * rpu.length - r.bitsLeft)) else none
  | .error _ _ => none

/-- What an RPU without its tail is made of: the bits in front of its blocks, the items of both
groups, and what fills up the last byte.  A second group without items may be absent. -/
def IsBody (head : List Bool) (first second : List Item) (body : List UInt8) : Prop :=
  ∃ group₁ group₂ fill, IsGroup head.length first group₁ ∧
    (second = [] ∧ group₂ = [] ∨ IsGroup (head.length + group₁.length) second group₂) ∧
    fill.length < 8 ∧ ofBytes body = head ++ (group₁ ++ (group₂ ++ fill))

variable {s d : Stream} {strictness : Strictness} {a : Head} {r r' : Reader}

theorem local_readFlags (compresses : Bool) : Local False (readFlags compresses strictness) := by
  unfold readFlags
  refine (local_u8 6).bind fun rpuType => ?_
  refine (Header.local_read rpuType strictness).bind fun h => ?_
  refine local_flag.bind fun hasColor => ?_
  refine local_flag.bind fun reuses => ?_
  exact .bindIf (fun _ => local_flag) (fun _ => .pure false) fun _ => .pure _

theorem local_readHead (compresses : Bool) : Local False (readHead compresses strictness) := by
  refine (local_readFlags compresses).bind fun _ => ?_
  refine local_readId.bind fun _ => ?_
  refine (Mapping.local_read _ _ _).bind fun _ => ?_
  refine local_readId.bind fun _ => ?_
  refine local_readId.bind fun _ => ?_
  refine .check fun _ => ?_
  refine (local_readSourceColor {} false _).bind fun _ => ?_
  exact .pure _

/-- **The head of an RPU is read wherever its bits stand**, and the RPU begins with them. -/
theorem reads_of_headBits {rpu : List UInt8} {head : List Bool}
    (hhead : s.headBits strictness rpu = some head) :
    head <+: ofBytes rpu ∧ ∃ a : Head, a.flags.isOwn = true ∧
      ∀ rest, Reads (readHead s.compresses strictness) head rest a := by
  unfold headBits at hhead
  split at hhead
  · case h_1 a r hread =>
    split at hhead
    · case isTrue hown =>
      obtain ⟨hsound, bits, hunread, hsame⟩ :=
        local_readHead _ _ _ _ (Reader.sound_ofBytes rpu) hread
      have hsplit : ofBytes rpu = bits ++ r.unread := by
        rw [← Reader.unread_ofBytes]
        exact hunread
      obtain rfl := Option.some.inj hhead
      rw [Reader.length_taken hsplit hsound, hsplit, List.take_left' rfl]
      refine ⟨List.prefix_append .., a, hown, fun rest => Reads.ofReader fun v hv hunreadv => ?_⟩
      exact hsame rest False.elim v hv hunreadv
    · cases hhead
  · cases hhead

/-! ### What follows it -/

theorem isOwn_iff {flags : Flags} : flags.isOwn = true ↔
    flags.rpuType = knownRpuType ∧ flags.hasColor = true ∧ flags.reuses = false ∧
      flags.compressed = false := by
  simp [Flags.isOwn, and_assoc]

/-- A profile that is kept is kept without a trace. -/
theorem checkProfile_eq_pure {h : Header} {reuses : Bool} {state state' : DecoderState}
    (hok : s.checkProfile strictness h reuses state = .ok () state') :
    s.checkProfile strictness h reuses = pure () := by
  unfold checkProfile at hok ⊢
  dsimp only at hok ⊢
  split at hok
  · cases hok
  · case isFalse hresidual =>
    rw [if_neg hresidual]
    split at hok
    · case isTrue hcareful =>
      rw [if_pos hcareful]
      split at hok
      · cases hok
      · case isFalse hcompression =>
        rw [if_neg hcompression]
        split at hok
        · cases hok
        · case isFalse hreuse => exact if_neg hreuse
    · case isFalse hcareful => exact if_neg hcareful

/-- An RPU is read in its parts once its flags are. -/
theorem readRpu_of_flags {flags : Flags} (notes : Array Note)
    (hflags : readFlags s.compresses strictness r = .ok flags r')
    (hknown : flags.rpuType = knownRpuType) :
    s.readRpu strictness ⟨r, notes⟩ =
      s.readParts strictness flags.header flags.hasColor flags.reuses flags.compressed
        ⟨r', notes⟩ := by
  unfold readFlags at hflags
  obtain ⟨rpuType, r₁, htype, hflags⟩ := Run.ok_of_bind hflags
  obtain ⟨header, r₂, hheader, hflags⟩ := Run.ok_of_bind hflags
  obtain ⟨hasColor, r₃, hhas, hflags⟩ := Run.ok_of_bind hflags
  obtain ⟨reuses, r₄, hreuses, hflags⟩ := Run.ok_of_bind hflags
  unfold readRpu
  rw [Run.bind_ok (Decoder.lift_ok htype)]
  cases hcompresses : s.compresses with
  | true =>
    rw [hcompresses, if_pos rfl] at hflags
    obtain ⟨compressed, r₅, hcompressed, hflags⟩ := Run.ok_of_bind hflags
    cases hflags
    rw [if_pos hknown, readBody_eq, Run.bind_ok (Decoder.lift_ok hheader),
      Run.bind_ok (Decoder.lift_ok hhas), Run.bind_ok (Decoder.lift_ok hreuses), hcompresses,
      if_pos rfl, Run.bind_ok (Decoder.lift_ok hcompressed)]
  | false =>
    rw [hcompresses, if_neg Bool.false_ne_true, pure_bind] at hflags
    cases hflags
    rw [if_pos hknown, readBody_eq, Run.bind_ok (Decoder.lift_ok hheader),
      Run.bind_ok (Decoder.lift_ok hhas), Run.bind_ok (Decoder.lift_ok hreuses), hcompresses,
      if_neg Bool.false_ne_true, pure_bind]

/-- What reading the head of an RPU consists of, as a decoder does it: the flags, the mapping, and
the color description in front of the blocks. -/
theorem readHead_eq_ok {compresses : Bool} (hhead : readHead compresses strictness r = .ok a r') :
    ∃ r₁ r₂, readFlags compresses strictness r = .ok a.flags r₁ ∧
      (∀ (s : Stream) (notes : Array Note), s.readMapping a.flags.header false ⟨r₁, notes⟩ =
        .ok { s with active := some a.id, slots := s.slots.keep a.id a.mapping } ⟨r₂, notes⟩) ∧
      ∀ (notes : Array Note) (blocks : BlockSet) (state : DecoderState),
        readBlocks false strictness {} ⟨r', notes⟩ = .ok blocks state →
          readOwnColor strictness ⟨r₂, notes⟩ = .ok (a.color, blocks) state := by
  unfold readHead at hhead
  obtain ⟨flags, r₁, hflags, hhead⟩ := Run.ok_of_bind hhead
  obtain ⟨id, r₂, hid, hhead⟩ := Run.ok_of_bind hhead
  obtain ⟨mapping, r₃, hmapping, hhead⟩ := Run.ok_of_bind hhead
  obtain ⟨affected, r₄, haffected, hhead⟩ := Run.ok_of_bind hhead
  obtain ⟨current, r₅, hcurrent, hhead⟩ := Run.ok_of_bind hhead
  obtain ⟨hsame, hhead⟩ := Run.ok_of_check hhead
  obtain ⟨color, r₆, hcolor, hhead⟩ := Run.ok_of_bind hhead
  cases hhead
  refine ⟨r₁, r₃, hflags, fun s notes => ?_, fun notes blocks state hblocks => ?_⟩
  · unfold readMapping
    rw [Run.bind_ok (Decoder.lift_ok hid), if_neg Bool.false_ne_true,
      Run.bind_ok (Decoder.lift_ok hmapping)]
    rfl
  · unfold readOwnColor
    rw [Run.bind_ok (Decoder.lift_ok haffected), Run.bind_ok (Decoder.lift_ok hcurrent),
      if_neg hsame]
    dsimp only
    rw [Run.bind_ok (Decoder.lift_ok hcolor), Run.bind_ok hblocks]
    rfl

/-- **An RPU whose head and blocks are read** leaves what they say. -/
theorem readRpu_of_head {notes : Array Note} {blocks : BlockSet} {state : DecoderState}
    (hhead : readHead s.compresses strictness r = .ok a r') (hown : a.flags.isOwn = true)
    (hprofile : s.checkProfile strictness a.flags.header false = pure ())
    (hblocks : readBlocks false strictness {} ⟨r', notes⟩ = .ok blocks state) :
    s.readRpu strictness ⟨r, notes⟩ = .ok (s.adopt (a.withBlocks blocks)) state := by
  obtain ⟨r₁, r₂, hflags, hmapping, hcolor⟩ := readHead_eq_ok hhead
  obtain ⟨hknown, hhas, hreuses, hcompressed⟩ := isOwn_iff.1 hown
  rw [readRpu_of_flags notes hflags hknown, hhas, hreuses, hcompressed, readParts, hprofile,
    pure_bind, Run.bind_ok (hmapping s notes), if_pos rfl, readColor_eq_own, bind_assoc,
    Run.bind_ok (hcolor notes blocks state hblocks)]
  rfl

/-- A decoder that accepts an RPU with a given head finds its profile kept. -/
theorem checkProfile_of_readRpu {notes : Array Note} {state : DecoderState}
    (hhead : readHead s.compresses strictness r = .ok a r') (hown : a.flags.isOwn = true)
    (hok : s.readRpu strictness ⟨r, notes⟩ = .ok d state) :
    s.checkProfile strictness a.flags.header false = pure () := by
  obtain ⟨r₁, r₂, hflags, -⟩ := readHead_eq_ok hhead
  obtain ⟨hknown, hhas, hreuses, hcompressed⟩ := isOwn_iff.1 hown
  rw [readRpu_of_flags notes hflags hknown, hhas, hreuses, hcompressed, readParts] at hok
  obtain ⟨⟨⟩, state', hprofile, -⟩ := Run.ok_of_bind hok
  exact checkProfile_eq_pure hprofile

/-! ### The blocks -/

variable {first second : List Item}

/-- **Both groups are read**, and the first blocks of each sort are kept.  A second group with items
is long enough to be told from a tail. -/
theorem exists_readBlocks {position : Nat} {group₁ group₂ fill tail : List Bool}
    {notes : Array Note} (hfirst : ∀ i ∈ first, i.BelongsTo .first)
    (hsecond : ∀ i ∈ second, i.BelongsTo .second) (hcodes₁ : HaveCodes first)
    (hcodes₂ : HaveCodes second) (hgroup₁ : IsGroup position first group₁)
    (hgroup₂ : second = [] ∧ group₂ = [] ∨ IsGroup (position + group₁.length) second group₂)
    (hfill : fill.length < 8) (htail : tail.length = 8 * Tail.size)
    (hwhole : 8 ∣ position + (group₁ ++ (group₂ ++ (fill ++ tail))).length) (hsound : r.Sound)
    (hunread : r.unread = group₁ ++ (group₂ ++ (fill ++ tail))) :
    ∃ state, readBlocks false strictness {} ⟨r, notes⟩ =
      .ok (.firstOf (knownBlocks first ++ knownBlocks second)) state := by
  rw [List.length_append] at hwhole
  have hread₁ : Decoder.Consumes (BlockGroup.first.read false strictness (.firstOf [])) group₁
      (group₂ ++ (fill ++ tail)) (.firstOf ([] ++ knownBlocks first)) :=
    BlockGroup.consumes_read hgroup₁ hfirst hcodes₁ (by rwa [Nat.add_assoc])
  rw [BlockSet.firstOf_nil, List.nil_append] at hread₁
  obtain ⟨state₁, hrun₁, hsound₁, hrest₁⟩ := hread₁ ⟨r, notes⟩ hsound hunread
  have hleft : state₁.reader.bitsLeft = group₂.length + (fill.length + tail.length) := by
    rw [hsound₁.toLoaded.bitsLeft_eq, hrest₁, List.length_append, List.length_append]
  unfold Tail.size at htail
  have hbits : Decoder.bitsLeft state₁ = .ok state₁.reader.bitsLeft state₁ := rfl
  unfold readBlocks
  rw [Run.bind_ok hrun₁, Run.bind_ok hbits]
  by_cases hmore : tailBits < state₁.reader.bitsLeft
  · rw [if_pos hmore]
    unfold tailBits at hmore
    rcases hgroup₂ with ⟨-, rfl⟩ | hgroup₂
    · rw [List.length_nil] at hleft
      omega
    · have hread₂ : Decoder.Consumes
          (BlockGroup.second.read false strictness (.firstOf (knownBlocks first))) group₂
          (fill ++ tail) (.firstOf (knownBlocks first ++ knownBlocks second)) :=
        BlockGroup.consumes_read hgroup₂ hsecond hcodes₂
          (by rw [List.length_append] at hwhole; rwa [Nat.add_assoc, Nat.add_assoc])
      obtain ⟨state₂, hrun₂, -⟩ := hread₂ state₁ hsound₁ hrest₁
      exact ⟨state₂, hrun₂⟩
  · rw [if_neg hmore]
    unfold tailBits at hmore
    have hnone : second = [] := by
      rcases hgroup₂ with ⟨hnone, -⟩ | ⟨_, -, rfl⟩
      · exact hnone
      · -- An item takes more than what is left in front of the tail.
        have hitems := Item.length_flatMap_bits_ge second
        simp only [List.length_append] at hleft
        exact List.length_eq_zero_iff.1 (by omega)
    have hsame : knownBlocks first ++ knownBlocks second = knownBlocks first := by
      rw [hnone]
      exact List.append_nil _
    rw [hsame]
    exact ⟨state₁, rfl⟩

/-- What an RPU that is not too long carries has codes. -/
theorem IsBody.haveCodes {head : List Bool} {body : List UInt8}
    (h : IsBody head first second body) (hsize : body.length < 2 ^ 29) :
    HaveCodes first ∧ HaveCodes second := by
  obtain ⟨group₁, group₂, fill, hgroup₁, hgroup₂, -, hbits⟩ := h
  have hlength := congrArg List.length hbits
  simp only [length_ofBytes, List.length_append] at hlength
  refine ⟨hgroup₁.haveCodes (by omega), ?_⟩
  rcases hgroup₂ with ⟨rfl, -⟩ | hgroup₂
  · exact haveCodes_nil
  · exact hgroup₂.haveCodes (by omega)

/-- What a decoder makes of an RPU whose head it reads, and whose profile it finds kept. -/
theorem decode_of_head {head : List Bool} {body data : List UInt8}
    (hreads : ∀ rest, Reads (readHead d.compresses strictness) head rest a)
    (hown : a.flags.isOwn = true)
    (hprofile : d.checkProfile strictness a.flags.header false = pure ())
    (hfirst : ∀ i ∈ first, i.BelongsTo .first) (hsecond : ∀ i ∈ second, i.BelongsTo .second)
    (hcodes : HaveCodes first ∧ HaveCodes second) (hbody : IsBody head first second body)
    (hpayload : d.payload data = .ok (Tail.attach body)) :
    (d.decode data strictness).result = .ok () ∧
      (d.decode data strictness).state =
        d.adopt (a.withBlocks (.firstOf (knownBlocks first ++ knownBlocks second))) := by
  obtain ⟨group₁, group₂, fill, hgroup₁, hgroup₂, hfill, hbits⟩ := hbody
  obtain ⟨tail, htail, hwhole⟩ : ∃ tail, tail.length = 8 * Tail.size ∧
      ofBytes (Tail.attach body) = head ++ (group₁ ++ (group₂ ++ (fill ++ tail))) := by
    refine ⟨ofBytes (Crc32.bigEndian (Crc32.checksum body) ++ [Tail.terminator]),
      length_ofBytes _, ?_⟩
    rw [Tail.attach, List.append_assoc, ofBytes_append, hbits]
    simp only [List.append_assoc]
  obtain ⟨r, hhead, hsound, hrest⟩ := hreads _ (Reader.ofBytes (Tail.attach body))
    (Reader.sound_ofBytes _) (by rw [← hwhole]; exact Reader.unread_ofBytes _)
  have hlength := congrArg List.length hwhole
  rw [length_ofBytes, List.length_append] at hlength
  obtain ⟨state, hblocks⟩ : ∃ state, readBlocks false strictness {} ⟨r, #[]⟩ = .ok _ state :=
    exists_readBlocks hfirst hsecond hcodes.1 hcodes.2 hgroup₁ hgroup₂ hfill htail
      ⟨_, hlength.symm⟩ hsound hrest
  have hrpu := readRpu_of_head hhead hown hprofile hblocks
  unfold decode
  simp only [hpayload, Tail.verify_attach]
  rw [hrpu]
  exact ⟨rfl, rfl⟩

/-- **An RPU is accepted with blocks if it is accepted without**: with any blocks in either group
and any levels that are not known there between them, every decoder of the same configuration
accepts it.  It is left in the state that the RPU without blocks leaves, but with the first blocks
of each sort. -/
theorem decode_carrying {head : List Bool} {bare body data₀ data : List UInt8}
    (hsame : d.configuration = s.configuration)
    (hfirst : ∀ i ∈ first, i.BelongsTo .first) (hsecond : ∀ i ∈ second, i.BelongsTo .second)
    (hhead : s.headBits strictness (Tail.attach bare) = some head)
    (hbare : IsBody head [] [] bare) (hpayload₀ : s.payload data₀ = .ok (Tail.attach bare))
    (haccepts : (s.decode data₀ strictness).result = .ok ())
    (hbody : IsBody head first second body) (hpayload : d.payload data = .ok (Tail.attach body))
    (hsize : (Tail.attach body).length < 2 ^ 29) :
    (d.decode data strictness).result = .ok () ∧
      let kept := BlockSet.firstOf (knownBlocks first ++ knownBlocks second)
      (d.decode data strictness).state =
        { (d.decode data₀ strictness).state with
          blocks := if kept.isEmpty then none else some kept } := by
  obtain ⟨⟨rest, hrest⟩, a, hown, hreads⟩ := reads_of_headBits hhead
  have hprofile : s.checkProfile strictness a.flags.header false = pure () := by
    obtain ⟨r, hrun, -⟩ := hreads rest (Reader.ofBytes (Tail.attach bare))
      (Reader.sound_ofBytes _) (by rw [hrest]; exact Reader.unread_ofBytes _)
    unfold decode at haccepts
    simp only [hpayload₀, Tail.verify_attach] at haccepts
    cases hrpu : s.readRpu strictness ⟨Reader.ofBytes (Tail.attach bare), #[]⟩ with
    | ok s' state => exact checkProfile_of_readRpu hrun hown hrpu
    | error fault state =>
      rw [hrpu] at haccepts
      cases haccepts
  -- What was found for one decoder holds for every other one of its configuration.
  have hcompresses : s.compresses = d.compresses := by rw [compresses, compresses, hsame]
  rw [hcompresses] at hreads
  rw [checkProfile_congr, ← hsame, ← checkProfile_congr] at hprofile
  have hpayload₀' : d.payload data₀ = .ok (Tail.attach bare) := by
    rw [← hpayload₀, payload, payload, hsame]
  have hcodes : HaveCodes first ∧ HaveCodes second := by
    rw [Tail.length_attach] at hsize
    exact hbody.haveCodes (by omega)
  obtain ⟨-, hstate₀⟩ := decode_of_head hreads hown hprofile (by simp) (by simp)
    ⟨haveCodes_nil, haveCodes_nil⟩ hbare hpayload₀'
  obtain ⟨hresult, hstate⟩ := decode_of_head hreads hown hprofile hfirst hsecond hcodes hbody
    hpayload
  refine ⟨hresult, ?_⟩
  rw [hstate, hstate₀]
  rfl

/-- An RPU with a color description and no blocks, without its tail. -/
def bareBody : List UInt8 := [
    8, 0, 8, 64, 96, 54, 80, 111, 0, 63, 248, 1, 255, 192, 15, 255, 208, 0, 0, 8, 0, 0, 6,
    128, 0, 0, 64, 0, 0, 52, 0, 0, 2, 0, 0, 1, 201, 89, 192, 0, 14, 101, 137, 89, 193, 182,
    132, 71, 201, 89, 208, 247, 0, 0, 0, 64, 0, 0, 2, 0, 0, 0, 2, 0, 0, 0, 7, 13, 136, 144,
    192, 97, 130, 151, 140, 35, 129, 69, 0, 0, 0, 105, 143, 150, 191, 255, 192, 0, 0, 0, 0, 0,
    0, 0, 24, 8, 31, 96, 56, 85]

/-- The same RPU with blocks, without its tail. -/
def crowdedBody : List UInt8 :=
  bareBody.dropLast ++ [
    84, 64, 32, 24, 8, 16, 25, 128, 64, 3, 1, 192, 0, 4, 131, 1, 244, 0, 0, 0, 0, 0, 0, 10,
    127, 192, 0, 15, 248, 0, 1, 255, 0, 0, 63, 224, 0, 7, 252, 0, 0, 255, 128, 0, 31, 240, 0,
    2, 7, 255, 48, 24, 0, 0, 0, 0, 0]

/-- The items of its first group. -/
def crowdedFirst : List Item :=
  [.unknown 3 [1, 2, 3], .known (.level1 { maxPq := 3079 }),
    .known (.level6 { maxLuminance := 1000 })]

/-- The items of its second group: with the one before, there are eight static blocks. -/
def crowdedSecond : List Item :=
  List.replicate 7 (.known (.level254 {})) ++ [.unknown 7 [255], .known (.level3 {})]

/-- Of eight static blocks the last one is not kept, and what is not known makes no difference. -/
theorem decode_carrying_crowded :
    (decode { configuration := { profile := 8 } } (Nal.marker :: Tail.attach crowdedBody)
        .none).result = .ok () ∧
      (decode { configuration := { profile := 8 } } (Nal.marker :: Tail.attach crowdedBody)
          .none).state.blocks =
        some {
          static := .level6 { maxLuminance := 1000 } :: List.replicate 6 (.level254 {})
          dynamic := [.level1 { maxPq := 3079 }, .level3 {}] } := by
  have hhead : headBits { configuration := { profile := 8 } } .none (Tail.attach bareBody) =
      some ((ofBytes bareBody).take 799) := by decide +kernel
  have hfirst : ∀ i ∈ crowdedFirst, i.BelongsTo .first := by
    simp [crowdedFirst, Item.BelongsTo, BlockGroup.knows_iff, BlockGroup.levels, Block.group,
      Block.isCmV4, Block.Fits]
  have hsecond : ∀ i ∈ crowdedSecond, i.BelongsTo .second := by
    simp [crowdedSecond, Item.BelongsTo, BlockGroup.knows_iff, BlockGroup.levels, Block.group,
      Block.isCmV4, Block.Fits]
  have hbare : IsBody ((ofBytes bareBody).take 799) [] [] bareBody :=
    ⟨[true], [], [], ⟨[], by decide +kernel, by decide +kernel⟩, .inl ⟨rfl, rfl⟩, by decide,
      by decide +kernel⟩
  have hbody : IsBody ((ofBytes bareBody).take 799) crowdedFirst crowdedSecond crowdedBody := by
    refine ⟨_, _, [false, false, false], ⟨List.replicate 4 false, ?_, rfl⟩,
      .inr ⟨[], ?_, rfl⟩, by decide, ?_⟩
    all_goals decide +kernel
  have hpayload (body : List UInt8) : payload { configuration := { profile := 8 } }
      (Nal.marker :: Tail.attach body) = .ok (Tail.attach body) := payload_attach (by decide) body
  have haccepts : (decode { configuration := { profile := 8 } }
      (Nal.marker :: Tail.attach bareBody) .none).result = .ok () := by decide +kernel
  obtain ⟨hresult, hstate⟩ := decode_carrying rfl hfirst hsecond hhead hbare
    (hpayload bareBody) haccepts hbody (hpayload crowdedBody)
    (by rw [Tail.length_attach]; decide +kernel)
  refine ⟨hresult, ?_⟩
  rw [hstate]
  decide +kernel

end DolbyVision.Stream
