/-
**What an encoder loses.**

An encoder refuses some values that its codes do not hold, such as pivots, coefficients and bit
depths, but cuts most fields to their width without a word.  A decoder that has seen nothing else
then accepts the RPU and exports other values than those that were sent.  So metadata comes back as
it was exactly if its fields fit, apart from the order of its blocks and what is not coded.

Main definitions:

* `DolbyVision.Metadata.Fits` — the fields of metadata fit in their bits;
* `DolbyVision.Metadata.coded` — what an RPU keeps of metadata;
* `DolbyVision.Metadata.Agrees` — metadata is the same apart from the order of its blocks, from
  coefficients beyond the order of their piece and from the inverse quantization of no residual.

Main results:

* `DolbyVision.Metadata.agrees_coded_iff` — **an RPU keeps metadata exactly if its fields fit**;
* `DolbyVision.Stream.accepts_full`, `DolbyVision.Stream.metadata_receive_full` — a decoder that
  gets everything in full accepts it, and exports what the RPU keeps;
* `DolbyVision.Stream.lossless_iff` — **what was encoded comes back exactly if its fields fit**;
* `DolbyVision.Stream.not_lossless` — an encoder accepts a field that does not fit.
-/

import DolbyVision.Proofs.Stream.Lockstep
import Mathlib.Data.List.Forall2

set_option relaxedAutoImplicit false
set_option autoImplicit false

namespace DolbyVision

open Bits

/-! ### Fields that were cut -/

theorem Bits.lower8_lt {width : Nat} (hwidth : width ≤ 8) (v : UInt8) :
    (lower8 width v).toNat < 2 ^ width := by
  have hlt : v.toNat % 2 ^ width < 2 ^ width := Nat.mod_lt _ (Nat.two_pow_pos width)
  have hword : 2 ^ width ≤ 2 ^ 8 := Nat.pow_le_pow_right (by decide) hwidth
  rw [lower8, UInt8.toNat_ofNat', Nat.mod_eq_of_lt (hlt.trans_le hword)]
  exact hlt

theorem Bits.lower16_lt {width : Nat} (hwidth : width ≤ 16) (v : UInt16) :
    (lower16 width v).toNat < 2 ^ width := by
  have hlt : v.toNat % 2 ^ width < 2 ^ width := Nat.mod_lt _ (Nat.two_pow_pos width)
  have hword : 2 ^ width ≤ 2 ^ 16 := Nat.pow_le_pow_right (by decide) hwidth
  rw [lower16, UInt16.toNat_ofNat', Nat.mod_eq_of_lt (hlt.trans_le hword)]
  exact hlt

/-- A signed field of one bit more than `width` holds an integer of that width. -/
theorem Bits.lowerSigned16_within {width : Nat} (hwidth : width < 16) (v : Int16) :
    -(2 ^ width : Nat) ≤ (lowerSigned16 (width + 1) v).toInt ∧
      (lowerSigned16 (width + 1) v).toInt < (2 ^ width : Nat) := by
  unfold lowerSigned16
  generalize (v.toInt % (2 ^ (width + 1) : Nat)).toNat = n
  have hlo := Int.le_bmod (x := (n : Int)) (m := 2 ^ (width + 1)) (Nat.two_pow_pos _)
  have hhi := Int.bmod_lt (x := (n : Int)) (m := 2 ^ (width + 1)) (Nat.two_pow_pos _)
  have hle : (2 ^ width : Nat) ≤ 2 ^ 15 := Nat.pow_le_pow_right (by decide) (by omega)
  have hpow : ((2 ^ (width + 1) : Nat) : Int) = 2 * (2 ^ width : Nat) := by
    rw [pow_succ]
    push_cast
    ring
  have hword : (Int16.ofInt (Int.bmod (n : Int) (2 ^ (width + 1)))).toInt =
      Int.bmod (n : Int) (2 ^ (width + 1)) := by
    refine Int16.toInt_ofInt_of_le ?_ ?_ <;> omega
  rw [hword]
  constructor <;> omega

namespace Header

/-- The fields of a header that was cut fit. -/
theorem fits_coded (h : Header) : h.coded.Fits where
  rpuProfile := lower8_lt (by decide) _
  rpuLevel := lower8_lt (by decide) _
  normalizedIdc := lower8_lt (by decide) _
  extendedMappingLow := lower8_lt (by decide) _
  extendedMappingHigh := lower8_lt (by decide) _

theorem coded_eq_self_iff {h : Header} : h.coded = h ↔ h.Fits :=
  ⟨fun hsame => hsame ▸ fits_coded h, coded_eq_self⟩

end Header

namespace SourceColor

/-- The fields of a description that was cut fit. -/
theorem fits_coded (c : SourceColor) : c.coded.Fits where
  bitDepth := lower8_lt (by decide) _
  colorSpace := lower8_lt (by decide) _
  chromaFormat := lower8_lt (by decide) _
  fullRange := lower8_lt (by decide) _
  minPq := lower16_lt (by decide) _
  maxPq := lower16_lt (by decide) _
  diagonal := lower16_lt (by decide) _

theorem coded_eq_self_iff {c : SourceColor} : c.coded = c ↔ c.Fits :=
  ⟨fun hsame => hsame ▸ fits_coded c, coded_eq_self⟩

end SourceColor

namespace Block

/-- The fields of a block that was cut fit. -/
theorem fits_coded (b : Block) : b.coded.Fits := by
  have hbits (v : UInt8) : (lower8 2 v).toNat < 2 ^ 2 := lower8_lt (by decide) v
  have hpq (v : UInt16) : (lower16 12 v).toNat < 2 ^ 12 := lower16_lt (by decide) v
  have hoffset (v : UInt16) : (lower16 13 v).toNat < 2 ^ 13 := lower16_lt (by decide) v
  cases b with
  | level1 d => exact ⟨hpq _, hpq _, hpq _⟩
  | level2 d =>
    exact ⟨hpq _, hpq _, hpq _, hpq _, hpq _, hpq _, lowerSigned16_within (by decide) _⟩
  | level3 d => exact ⟨hpq _, hpq _, hpq _⟩
  | level4 d => exact ⟨hpq _, hpq _⟩
  | level5 d => exact ⟨hoffset _, hoffset _, hoffset _, hoffset _⟩
  | level6 d => trivial
  | level8 d => exact ⟨hpq _, hpq _, hpq _, hpq _, hpq _, hpq _, hpq _, hpq _⟩
  | level9 d => trivial
  | level10 d => exact ⟨hpq _, hpq _⟩
  | level11 d =>
    exact ⟨lower8_lt (by decide) _, hbits _, hbits _, hbits _, hbits _, hbits _, hbits _⟩
  | level254 d => trivial
  | level255 d => trivial

end Block

/-! ### Agreement -/

/-- Pieces of one kind and order with the same coefficients up to their order. -/
def Piece.Agrees : Piece → Piece → Prop
  | polynomial order v, polynomial order' v' =>
    order = order' ∧ v.toList.take (order.toNat + 1) = v'.toList.take (order.toNat + 1)
  | mmr order constant rows, mmr order' constant' rows' =>
    order = order' ∧ constant = constant' ∧
      rows.toList.take order.toNat = rows'.toList.take order.toNat
  | _, _ => False

/-- Curves with the same pivots whose pieces agree. -/
structure Curve.Agrees (c c' : Curve) : Prop where
  pivots : c.pivots = c'.pivots
  pieces : List.Forall₂ Piece.Agrees c.pieces c'.pieces

/-- Mappings that are the same apart from what is not coded. -/
structure Mapping.Agrees (m m' : Mapping) : Prop where
  id : m.id = m'.id
  colorSpace : m.colorSpace = m'.colorSpace
  chromaFormat : m.chromaFormat = m'.chromaFormat
  curves : List.Forall₂ Curve.Agrees m.curves.toList m'.curves.toList
  partitionsX : m.partitionsX = m'.partitionsX
  partitionsY : m.partitionsY = m'.partitionsY
  nlqMethod : m.nlqMethod = m'.nlqMethod
  nlq : m.nlqMethod.isSome → m.nlq = m'.nlq
  nlqPivots : m.nlqMethod.isSome → m.nlqPivots = m'.nlqPivots

namespace Metadata

/-- Metadata that is the same apart from the order of its blocks and from what is not coded. -/
structure Agrees (m m' : Metadata) : Prop where
  header : m.header = m'.header
  color : m.color = m'.color
  mapping : m.mapping.Agrees m'.mapping
  blocks : m.blocks.Perm m'.blocks

/-- The fields of metadata fit in their bits. -/
structure Fits (m : Metadata) : Prop where
  header : m.header.Fits
  color : m.color.Fits
  blocks : ∀ b ∈ m.blocks, b.Fits

/-- What an RPU keeps of metadata. -/
def coded (m : Metadata) : Metadata where
  header := m.header.coded
  mapping := m.mapping.coded m.header
  color := m.color.coded
  blocks := (({} : BlockSet).append m.blocks).coded.toList

end Metadata

/-! ### What an RPU keeps -/

variable {h : Header}

/-- A piece keeps the coefficients up to its order. -/
theorem Piece.agrees_coded (hfixed : h.coefficientType = Header.fixedPoint) {p : Piece}
    (horder : p.hasValidOrder = true) : p.Agrees (p.coded h) := by
  have hid : Coefficient.codedSigned h = id :=
    funext (Coefficient.codedSigned_of_fixedPoint hfixed)
  cases p with
  | polynomial order v =>
    rw [hasValidOrder, Bool.or_eq_true, beq_iff_eq, beq_iff_eq] at horder
    simp only [coded, hid, id, Agrees, toList_three, true_and]
    rcases horder with rfl | rfl <;> rfl
  | mmr order constant rows =>
    have horder : order = 1 ∨ order = 2 ∨ order = 3 := by
      rw [hasValidOrder, Bool.and_eq_true, decide_eq_true_eq, decide_eq_true_eq,
        UInt8.le_iff_toNat_le, UInt8.le_iff_toNat_le] at horder
      have hone : (1 : UInt8).toNat = 1 := rfl
      have hthree : (3 : UInt8).toNat = 3 := rfl
      have hcases : order.toNat = 1 ∨ order.toNat = 2 ∨ order.toNat = 3 := by omega
      exact hcases.imp UInt8.toNat_inj.1 (Or.imp UInt8.toNat_inj.1 UInt8.toNat_inj.1)
    simp only [coded, hid, id, Agrees, toList_three, true_and]
    rcases horder with rfl | rfl | rfl <;> simp

/-- A mapping keeps everything but coefficients beyond the order of their piece and the inverse
quantization of no residual. -/
theorem Mapping.agrees_coded (hfixed : h.coefficientType = Header.fixedPoint) {m : Mapping}
    {usesNlq : Bool} (hm : m.Valid usesNlq) : m.Agrees (m.coded h) where
  id := rfl
  colorSpace := rfl
  chromaFormat := rfl
  curves := by
    unfold coded
    rw [Vector.toList_map, List.forall₂_map_right_iff, List.forall₂_same]
    intro c hc
    refine ⟨rfl, ?_⟩
    unfold Curve.coded
    rw [List.forall₂_map_right_iff, List.forall₂_same]
    exact fun p hp => Piece.agrees_coded hfixed (hm.orders c hc p hp)
  partitionsX := rfl
  partitionsY := rfl
  nlqMethod := rfl
  nlq := by
    intro hsome
    have hid : Nlq.coded h = fun n => n := funext (Nlq.coded_eq_self hfixed)
    unfold coded
    rw [if_pos hsome, hid, Vector.map_id']
  nlqPivots := by
    intro hsome
    unfold coded
    dsimp only
    rw [if_pos hsome]

/-- The blocks of one sort are only put in another order. -/
theorem BlockSet.sent_perm (blocks : List Block) : (sent blocks).Perm blocks := by
  have hsplit := List.filter_append_perm (fun b : Block => !b.isCmV4) blocks
  simpa only [sent, Bool.not_not] using hsplit

/-- A decoder gets all blocks of a list, in another order and cut to their width. -/
theorem BlockSet.toList_coded_perm (blocks : List Block) :
    (({} : BlockSet).append blocks).coded.toList.Perm (blocks.map Block.coded) := by
  have hsort := List.filter_append_perm Block.isStatic blocks
  simp only [append, coded, toList, List.nil_append]
  rw [← List.map_append]
  exact (((sent_perm _).append (sent_perm _)).trans hsort).map Block.coded

/-- **An RPU keeps metadata exactly if its fields fit.** -/
theorem Metadata.agrees_coded_iff {m : Metadata} {usesNlq : Bool}
    (hfixed : m.header.coefficientType = Header.fixedPoint) (hm : m.mapping.Valid usesNlq) :
    m.Agrees m.coded ↔ m.Fits := by
  constructor
  · intro hagrees
    refine ⟨Header.coded_eq_self_iff.1 hagrees.header.symm,
      SourceColor.coded_eq_self_iff.1 hagrees.color.symm, ?_⟩
    intro b hb
    have hkept := (hagrees.blocks.trans (BlockSet.toList_coded_perm m.blocks)).subset hb
    obtain ⟨b', -, rfl⟩ := List.mem_map.1 hkept
    exact b'.fits_coded
  · intro hfits
    have hsame : m.blocks.map Block.coded = m.blocks :=
      (List.map_congr_left fun b hb => Block.coded_eq_self (hfits.blocks b hb)).trans
        (List.map_id' _)
    have hblocks := BlockSet.toList_coded_perm m.blocks
    rw [hsame] at hblocks
    exact ⟨(Header.coded_eq_self hfits.header).symm, (SourceColor.coded_eq_self hfits.color).symm,
      Mapping.agrees_coded hfixed hm, hblocks.symm⟩

/-! ### Encoding and decoding -/

namespace Stream

variable {e d : Stream} {m : Metadata} {options : EncodeOptions} {p : Plan}
  {strictness : Strictness}

/-- Any decoder of the same configuration accepts what is sent in full. -/
theorem accepts_full (hplans : e.Plans m options p) (hplain : options.compress = false)
    (hpermits : d.Permits p strictness) : d.Accepts p strictness := by
  obtain ⟨hreuses, hcompressed⟩ := hplans.full hplain
  refine ⟨hpermits, ?_, ?_, fun _ => receivedBlocks_withinLimits hplans.valid ?_⟩
  · rw [hreuses]
    exact fun h => absurd h Bool.false_ne_true
  · rw [hcompressed]
    exact fun h => absurd h Bool.false_ne_true
  · rw [keptBlocks, hcompressed, if_neg Bool.false_ne_true]
    exact Nat.zero_le _

/-- A decoder that gets everything in full exports what the RPU keeps. -/
theorem metadata_receive_full (hplans : e.Plans m options p) (hplain : options.compress = false) :
    (d.receive p).metadata = some m.coded := by
  obtain ⟨hreuses, hcompressed⟩ := hplans.full hplain
  have hblocks : d.receivedBlocks p = p.blocks.coded := by
    rw [receivedBlocks_eq hplans.valid.sorted, hcompressed, if_neg Bool.false_ne_true]
  have hset : p.blocks = ({} : BlockSet).append m.blocks := by
    rw [hplans.valid.blocks, hplans.metadata]
  refine metadata_eq ?_ ?_ ?_ ?_
  · exact congrArg (fun m => m.header.coded) hplans.metadata
  · change (d.receive p).slot p.id = some (m.mapping.coded m.header)
    unfold slot receive receiveMapping
    dsimp only
    rw [hreuses, if_neg Bool.false_ne_true, get_keep, if_pos rfl, hplans.metadata]
  · unfold activeColor receive
    dsimp only
    cases hhas : p.hasColor with
    | true =>
      change some (d.receivedColor p) = some m.color.coded
      rw [receivedColor, hcompressed, if_neg Bool.false_ne_true, hplans.metadata]
    | false =>
      change some SourceColor.assumed = some m.color.coded
      rw [(hplans.assumed hhas).1, SourceColor.coded_eq_self SourceColor.fits_assumed]
  · change _ = (({} : BlockSet).append m.blocks).coded.toList
    rw [← hset]
    unfold receive
    dsimp only
    rw [hblocks]
    cases hhas : p.hasColor with
    | true => exact toList_kept p.blocks.coded
    | false =>
      have hempty := (hplans.assumed hhas).2
      rw [BlockSet.toList, List.append_eq_nil_iff] at hempty
      rw [if_neg Bool.false_ne_true, BlockSet.coded, hempty.1, hempty.2]
      rfl

/-- **What was encoded comes back exactly if its fields fit**: whatever an encoder that has sent
nothing accepts, a decoder that has received nothing accepts too, and it exports the same metadata
if and only if all fields fit in their bits. -/
theorem lossless_iff (enable enable' : Enable) {c : Configuration} (hsuits : c.Suits strictness)
    (hfive : c.profile ≠ 5) (ht35 : c.profile ≠ t35Profile)
    (hfixed : m.header.coefficientType = Header.fixedPoint) {nal : List UInt8}
    (hencode : (({ enable, configuration := c } : Stream).encode (some m) { nal := true }).result =
      .ok nal) :
    ∃ got, (({ enable := enable', configuration := c } : Stream).decode (Nal.unwrap nal)
        strictness).result = .ok () ∧
      (({ enable := enable', configuration := c } : Stream).decode (Nal.unwrap nal)
        strictness).state.metadata = some got ∧ (m.Agrees got ↔ m.Fits) := by
  generalize he : ({ enable, configuration := c } : Stream) = e at hencode
  generalize hd : ({ enable := enable', configuration := c } : Stream) = d
  have hsame : d.configuration = e.configuration := by rw [← hd, ← he]
  obtain rfl : e.configuration = c := by rw [← he]
  have hwrapping : e.wrapping false = { nal := true } := by simp [wrapping, ht35]
  rw [← hwrapping] at hencode
  obtain ⟨p, rpu, hplan, hrpu, hwrap, -⟩ := encode_eq_ok hencode
  have hplans := plans_of_plan hplan
  have hpermits : d.Permits p strictness :=
    permits_of_plans hplans hsame hsuits fun hprofile => absurd hprofile hfive
  have hdecode := decodeWrapped_of_accepts hplans.valid hrpu hwrap hsame
    (fun hprofile => absurd hprofile ht35) (accepts_full hplans rfl hpermits)
  have hdata : d.unwrap nal = .ok (Nal.unwrap nal) := by
    rw [unwrap, hsame, if_neg ht35]
  rw [decodeWrapped_eq hdata] at hdecode
  rw [hdecode]
  have hmapping := hplans.valid.mapping
  rw [hplans.metadata] at hmapping
  exact ⟨m.coded, rfl, metadata_receive_full hplans rfl, Metadata.agrees_coded_iff hfixed hmapping⟩

/-- What a decoder of profile 8 exports of metadata that an encoder of profile 8 was given, if both
accept it. -/
def exchanged (m : Metadata) : Option Metadata := do
  let nal ← (encode { configuration := { profile := 8 } } (some m) { nal := true }).result.toOption
  let decoded := decode { configuration := { profile := 8 } } (Nal.unwrap nal) .none
  decoded.result.toOption
  decoded.state.metadata

/-- Metadata of a shot with a given maximum, whose blocks are not in the order of an RPU. -/
def flashing (maxPq : UInt16) : Metadata :=
  { Metadata.identity with blocks := [.level1 { maxPq }, .level254 {}] }

/-- A maximum of twelve bits comes back, though the blocks change places. -/
theorem lossless_flashing :
    ∃ got, exchanged (flashing 3079) = some got ∧ (flashing 3079).Agrees got := by
  obtain ⟨nal, hnal⟩ : ∃ nal, (encode { configuration := { profile := 8 } } (some (flashing 3079))
      { nal := true }).result = .ok nal := Checked.exists_ok (by decide +kernel)
  obtain ⟨got, hok, hgot, hiff⟩ := lossless_iff .off .off
    (Configuration.suits_none { profile := 8 }) (by decide) (by decide) rfl hnal
  have hfits : (flashing 3079).Fits := by
    refine ⟨⟨by decide, by decide, by decide, by decide, by decide⟩, SourceColor.fits_assumed, ?_⟩
    simp [flashing, Block.Fits]
  refine ⟨got, ?_, hiff.2 hfits⟩
  simp only [exchanged, hnal, Except.toOption, bind, Option.bind, hok, hgot]

/-- **An encoder accepts a field that does not fit**, and a decoder exports another value: of a
maximum of thirteen bits the highest one is lost. -/
theorem not_lossless :
    exchanged (flashing 5000) =
        some { flashing 5000 with blocks := [.level254 {}, .level1 { maxPq := 904 }] } ∧
      ¬ (flashing 5000).Agrees
        { flashing 5000 with blocks := [.level254 {}, .level1 { maxPq := 904 }] } := by
  refine ⟨by decide +kernel, fun hagrees => ?_⟩
  exact absurd hagrees.blocks (by decide)

end Stream

end DolbyVision
