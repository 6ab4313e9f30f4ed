/-
**Mappings and blocks are read back wherever they stand.**

A mapping and a block may start at any bit of a byte, and anything may follow them.  What was
written is taken to the last bit, and the value comes back.

The optional fields of a block are there or not by its length alone.  So a length may lose fields
(`Block.CoveredBy`), or be too short for those that it announces (`Bits.Spans`); a writer takes the
shortest one with which neither happens.

Main definitions:

* `DolbyVision.Block.KeptIn` — some bytes of a given length give a block back.

Main results:

* `DolbyVision.Mapping.reads_written` — **a mapping comes back**, if it can be written, which is to
  say if its numbers have codes;
* `DolbyVision.Block.covered_of_read`, `DolbyVision.Block.spans_body` — what a length loses, and
  what it needs;
* `DolbyVision.Block.isLeast_codedLength` — **the length of a block is the shortest** that keeps it;
* `DolbyVision.Block.reads_shortest` — a block comes back, and is as short as it can be.
-/

import DolbyVision.Proofs.Bits.Spans
import DolbyVision.Proofs.Rpu.Items
import DolbyVision.Proofs.Rpu.Movable
import DolbyVision.Proofs.Rpu.Readable

set_option relaxedAutoImplicit false
set_option autoImplicit false

namespace DolbyVision

open Bits

/-! ### Mappings -/

namespace Mapping

variable {h : Header} {m : Mapping} {w w' : Writer}

/-- A mapping of a header with fixed-point coefficients is read from the bits that it takes. -/
theorem exists_bits (hheader : h.Valid) (htype : h.coefficientType = Header.fixedPoint)
    (hvalid : m.Valid h.usesNlq) (hcanonical : m.IsCanonical) (hput : put h w m = .ok w') :
    ∃ bits, Appends (fun w => put h w m) bits ∧
      ∀ rest, Reads (read h m.id.toNat h.usesNlq) bits rest m := by
  obtain ⟨bits, hbits⟩ := movable_put h m w w' hput
  refine ⟨bits, hbits, fun rest => ?_⟩
  -- The bits are those that a writer at its start takes.
  obtain ⟨v, hv, hwritten⟩ := hbits Writer.empty
  rw [Writer.written_empty, List.nil_append] at hwritten
  have hconveys : Conveys (bits.length + rest.length) Writer.empty v
      (read h m.id.toNat h.usesNlq) (m.coded h) := conveys hheader hvalid rfl hv
  rw [coded_eq_self htype hcanonical] at hconveys
  exact Reads.ofConveys hwritten hconveys

/-- A mapping that can be written has codes for its numbers: they are read from those codes. -/
theorem isCodable_of_put (hheader : h.Valid) (htype : h.coefficientType = Header.fixedPoint)
    (hvalid : m.Valid h.usesNlq) (hcanonical : m.IsCanonical) (hput : put h w m = .ok w') :
    m.IsCodable h := by
  obtain ⟨bits, hbits, hreads⟩ := exists_bits hheader htype hvalid hcanonical hput
  obtain ⟨v, -, hwritten⟩ := hbits Writer.empty
  obtain ⟨bytes, -, hfinish⟩ := v.exists_finish
  have hunread : (Reader.ofBytes bytes).unread =
      bits ++ List.replicate (padding v.written.length) false := by
    rw [Reader.unread_ofBytes, hfinish, hwritten, Writer.written_empty, List.nil_append]
  obtain ⟨r, hrun, -, -⟩ := hreads _ _ (Reader.sound_ofBytes bytes) hunread
  exact (gives_canonical hheader _ _ _ _ _ hrun).2.1

/-- **A mapping comes back wherever it stands**, from exactly the bits that were written.  It can be
written if its numbers have codes, and only then. -/
theorem reads_written (hheader : h.validate = .ok ())
    (htype : h.coefficientType = Header.fixedPoint) (hvalid : m.validate h.usesNlq = .ok ())
    (hcanonical : m.IsCanonical) (w : Writer) :
    ((∃ w', put h w m = .ok w') ↔ m.IsCodable h) ∧
      ∀ w', put h w m = .ok w' → ∃ bits, w'.written = w.written ++ bits ∧
        ∀ rest, Reads (read h m.id.toNat h.usesNlq) bits rest m := by
  have hheader := Header.valid_of_validate hheader
  have hvalid := valid_of_validate hvalid
  refine ⟨⟨?_, fun hcodable => puts hheader hvalid hcodable w⟩, ?_⟩
  · rintro ⟨w', hput⟩
    exact isCodable_of_put hheader htype hvalid hcanonical hput
  · intro w' hput
    obtain ⟨bits, hbits, hreads⟩ := exists_bits hheader htype hvalid hcanonical hput
    exact ⟨bits, hbits.written hput, hreads⟩

/-- A header of two layers. -/
def layeredHeader : Header where
  coefficientLog2Denominator := 23
  baseLayerBitDepth := 10
  enhancementLayerBitDepth := 10
  outputBitDepth := 12

/-- A mapping with polynomials of both orders, regressions, and an inverse quantization. -/
def layered : Mapping where
  id := 3
  curves := #v[
    ⟨[0, 512, 1023], [.polynomial 1 #v[-1, 8388608, 0], .polynomial 2 #v[-8388609, 1, 5]]⟩,
    ⟨[64, 960], [.mmr 3 (-5) (Vector.replicate 3 #v[0, 1, -1, 8388608, -8388608, 7, 0])]⟩,
    ⟨[64, 960], [.mmr 1 9 #v[Vector.replicate 7 3, Vector.replicate 7 0, Vector.replicate 7 0]]⟩]
  nlqMethod := some .linearDeadzone
  partitionsX := 1
  partitionsY := 1
  nlq := Vector.replicate 3 { offset := 512, inMax := 8388608, slope := 16385, threshold := 1 }
  nlqPivots := #v[0, 1023]

/-- It comes back behind three bits. -/
theorem reads_written_layered :
    layeredHeader.validate = .ok () ∧ layeredHeader.coefficientType = Header.fixedPoint ∧
      layered.validate layeredHeader.usesNlq = .ok () ∧ layered.IsCanonical ∧
      ∃ w w' bits, Writer.empty.put 3 5 = .ok w ∧ put layeredHeader w layered = .ok w' ∧
        w'.written = [true, false, true] ++ bits ∧
        ∀ rest, Reads (read layeredHeader 3 true) bits rest layered := by
  have hheader : layeredHeader.validate = .ok () := by decide
  have hvalid : layered.validate layeredHeader.usesNlq = .ok () := by decide +kernel
  have hcanonical : layered.IsCanonical := by
    refine ⟨?_, nofun, nofun⟩
    simp [layered, Vector.toList, Piece.IsCanonical]
  obtain ⟨w', hput⟩ : ∃ w', (Writer.empty.put 3 5 >>= fun w => put layeredHeader w layered) =
      .ok w' := Checked.exists_ok (by decide +kernel)
  obtain ⟨w, hfront, hput⟩ := Checked.ok_of_bind hput
  obtain ⟨-, hreads⟩ := reads_written hheader rfl hvalid hcanonical w
  obtain ⟨bits, hwritten, hreads⟩ := hreads w' hput
  rw [(Writer.written_of_put hfront).2] at hwritten
  exact ⟨hheader, rfl, hvalid, hcanonical, w, w', bits, hfront, hput, hwritten, hreads⟩

end Mapping

/-! ### What a length loses -/

namespace Block

/-- A field that is left out is read as what stands for its absence. -/
theorem gives_absent {α : Type} {c : Prop} [Decidable c] (item : BitParser α) (absent : α) :
    Run.Gives (readIf c item absent) fun v => ¬ c → v = absent := by
  refine .ite (fun hc => ?_) fun _ => .pure fun _ => rfl
  intro r v r' _ hnot
  exact absurd (of_decide_eq_true hc) hnot

theorem gives_level8_covered (length : Nat) :
    Run.Gives (readLevel8 length) fun d => (level8 d).CoveredBy length := by
  unfold readLevel8
  refine .check fun hshort => ?_
  refine .after fun _ => .after fun _ => .after fun _ => ?_
  refine .after fun _ => .after fun _ => .after fun _ => ?_
  refine .after fun _ => ?_
  refine .bind (gives_absent _ _) fun contrast hcontrast => ?_
  refine .bind (gives_absent _ _) fun clip hclip => ?_
  refine .bind (gives_absent _ _) fun saturation hsaturation => ?_
  refine .bind (gives_absent _ _) fun hue hhue => .pure ?_
  exact ⟨Nat.not_lt.1 hshort, hcontrast, hclip, hsaturation, hhue⟩

theorem gives_level9_covered (length : Nat) :
    Run.Gives (readLevel9 length) fun d => (level9 d).CoveredBy length :=
  .after fun _ => .bind (gives_absent _ _) fun _ hprimaries => .pure hprimaries

theorem gives_level10_covered (length : Nat) :
    Run.Gives (readLevel10 length) fun d => (level10 d).CoveredBy length := by
  refine .after fun _ => .after fun _ => .after fun _ => ?_
  refine .after fun _ => ?_
  refine .bind (gives_absent _ _) fun _ hprimaries => ?_
  exact .pure hprimaries

/-- **What the length of a body leaves out is read as zero.** -/
theorem covered_of_read {b : Block} {length : Nat} {r r' : Reader}
    (hrun : readBody b.group b.level length r = .ok (some b) r') : b.CoveredBy length := by
  cases b with
  | level8 d => exact gives_some (gives_level8_covered length) _ _ _ hrun _ rfl
  | level9 d => exact gives_some (gives_level9_covered length) _ _ _ hrun _ rfl
  | level10 d => exact gives_some (gives_level10_covered length) _ _ _ hrun _ rfl
  | _ => trivial

/-! ### What a length needs -/

theorem spans_chromaticities : Spans 128 readChromaticities := by
  have hword : Spans 16 (Reader.i16 16) := spans_i16 (by decide)
  exact hword.bind fun _ => hword.bind fun _ => hword.bind fun _ => hword.bind fun _ =>
    hword.bind fun _ => hword.bind fun _ => hword.bind fun _ => hword.bind fun _ => .pure _

/-- A field that may be left out takes no bits then. -/
theorem spans_readIf {α : Type} {c : Prop} [Decidable c] {n : Nat} {item : BitParser α}
    (hitem : Spans n item) (absent : α) :
    Spans (if c then n else 0) (readIf c item absent) := by
  have hchosen : Spans (if decide c = true then n else 0) (readIf c item absent) :=
    .ite hitem (.pure absent)
  simpa only [decide_eq_true_eq] using hchosen

theorem spans_bytes (n : Nat) : Spans (8 * n) (Reader.times n (Reader.u8 8)) :=
  spans_times (spans_u8 (by decide)) n

theorem spans_level8 (d : Level8) (length : Nat) :
    Spans (Field.totalWidth ((level8 d).bodyFields length)) (readLevel8 length) := by
  have hword : Spans 12 (Reader.u16 12) := spans_u16 (by decide)
  unfold readLevel8
  refine .check fun _ => .congr ((spans_u8 (by decide)).bind fun _ => hword.bind fun _ =>
    hword.bind fun _ => hword.bind fun _ => hword.bind fun _ => hword.bind fun _ =>
      hword.bind fun _ => (spans_readIf hword 0).bind fun _ => (spans_readIf hword 0).bind fun _ =>
        (spans_readIf (spans_bytes 6) _).bind fun _ =>
          (spans_readIf (spans_bytes 6) _).bind fun _ => .pure _) ?_
  simp only [bodyFields, Field.totalWidth_append, totalWidth_ite, totalWidth_cons,
    totalWidth_byteFields, Vector.length_toList]
  simp only [Field.totalWidth, List.foldr_nil, Nat.add_zero]
  omega

theorem spans_level9 (d : Level9) (length : Nat) :
    Spans (Field.totalWidth ((level9 d).bodyFields length)) (readLevel9 length) := by
  refine .congr ((spans_u8 (by decide)).bind fun _ =>
    (spans_readIf spans_chromaticities {}).bind fun _ => .pure _) ?_
  simp only [bodyFields, totalWidth_cons, totalWidth_ite, Chromaticities.totalWidth_fields]
  rfl

theorem spans_level10 (d : Level10) (length : Nat) :
    Spans (Field.totalWidth ((level10 d).bodyFields length)) (readLevel10 length) := by
  refine .congr ((spans_u8 (by decide)).bind fun _ => (spans_u16 (by decide)).bind fun _ =>
    (spans_u16 (by decide)).bind fun _ => (spans_u8 (by decide)).bind fun _ =>
      (spans_readIf spans_chromaticities {}).bind fun _ => .pure _) ?_
  simp only [bodyFields, Field.totalWidth_append, totalWidth_ite, totalWidth_cons,
    Chromaticities.totalWidth_fields]
  simp only [Field.totalWidth, List.foldr_nil, Nat.add_zero]
  omega

/-- **A body takes the bits of its layout**, whatever it holds. -/
theorem spans_body (b : Block) (length : Nat) :
    Spans (Field.totalWidth (b.bodyFields length)) (readBody b.group b.level length) := by
  have hbyte : Spans 8 (Reader.u8 8) := spans_u8 (by decide)
  have hshort : Spans 2 (Reader.u8 2) := spans_u8 (by decide)
  have hword : Spans 12 (Reader.u16 12) := spans_u16 (by decide)
  have hoffset : Spans 13 (Reader.u16 13) := spans_u16 (by decide)
  have hwhole : Spans 16 (Reader.u16 16) := spans_u16 (by decide)
  -- Only the layouts of levels 8, 9 and 10 depend on the length.
  cases b with
  | level1 d =>
    have hread : Spans 36 readLevel1 :=
      hword.bind fun _ => hword.bind fun _ => hword.bind fun _ => .pure _
    exact (hread.map level1).map some
  | level2 d =>
    have hread : Spans 85 readLevel2 :=
      hword.bind fun _ => hword.bind fun _ => hword.bind fun _ => hword.bind fun _ =>
        hword.bind fun _ => hword.bind fun _ => (spans_i16 (by decide)).bind fun _ => .pure _
    exact (hread.map level2).map some
  | level3 d =>
    have hread : Spans 36 readLevel3 :=
      hword.bind fun _ => hword.bind fun _ => hword.bind fun _ => .pure _
    exact (hread.map level3).map some
  | level4 d =>
    have hread : Spans 24 readLevel4 := hword.bind fun _ => hword.bind fun _ => .pure _
    exact (hread.map level4).map some
  | level5 d =>
    have hread : Spans 52 readLevel5 :=
      hoffset.bind fun _ => hoffset.bind fun _ => hoffset.bind fun _ => hoffset.bind fun _ =>
        .pure _
    exact (hread.map level5).map some
  | level6 d =>
    have hread : Spans 64 readLevel6 :=
      hwhole.bind fun _ => hwhole.bind fun _ => hwhole.bind fun _ => hwhole.bind fun _ => .pure _
    exact (hread.map level6).map some
  | level8 d => exact ((spans_level8 d length).map level8).map some
  | level9 d => exact ((spans_level9 d length).map level9).map some
  | level10 d => exact ((spans_level10 d length).map level10).map some
  | level11 d =>
    have hread : Spans 28 readLevel11 :=
      hbyte.bind fun _ => (spans_u8 (by decide)).bind fun _ => spans_flag.bind fun _ =>
        (spans_skip 3).bind fun _ => hshort.bind fun _ => hshort.bind fun _ =>
          hshort.bind fun _ => hshort.bind fun _ => hshort.bind fun _ => hshort.bind fun _ =>
            .pure _
    exact (hread.map level11).map some
  | level254 d =>
    have hread : Spans 16 readLevel254 := hbyte.bind fun _ => hbyte.bind fun _ => .pure _
    exact (hread.map level254).map some
  | level255 d =>
    have hread : Spans 48 readLevel255 :=
      hbyte.bind fun _ => hbyte.bind fun _ => (spans_bytes 4).bind fun _ => .pure _
    refine ((hread.map level255).map some).congr ?_
    rw [bodyFields, Field.totalWidth_append, totalWidth_byteFields, Vector.length_toList]
    rfl

/-! ### The shortest length -/

/-- A length announces the primaries of a block if its index says that they are given by their
chromaticities. -/
def HasPrimaries (length : Nat) : Block → Prop
  | level9 d => d.sourcePrimaryIndex = customPrimaries → 1 < length
  | level10 d => d.targetPrimaryIndex = customPrimaries → 5 < length
  | _ => True

/-- Some bytes of a given length give a block back, together with all the primaries that it must
have. -/
structure KeptIn (b : Block) (length : Nat) : Prop where
  read : ∃ bytes : List UInt8, bytes.length = length ∧
    ∃ r, readBody b.group b.level length (Reader.ofBytes bytes) = .ok (some b) r
  primaries : b.HasPrimaries length

/-- A body that is read needs as many bytes as its layout. -/
theorem KeptIn.totalWidth_le {b : Block} {length : Nat} (h : b.KeptIn length) :
    Field.totalWidth (b.bodyFields length) ≤ 8 * length := by
  obtain ⟨bytes, hlength, r, hrun⟩ := h.read
  obtain ⟨-, htaken⟩ := spans_body b length _ _ _ (Reader.sound_ofBytes bytes) hrun
  rw [Reader.unread_ofBytes, length_ofBytes, hlength] at htaken
  omega

theorem KeptIn.covered {b : Block} {length : Nat} (h : b.KeptIn length) : b.CoveredBy length := by
  obtain ⟨bytes, -, r, hrun⟩ := h.read
  exact covered_of_read hrun

/-- No length is shorter that has the same layout. -/
theorem codedLength_le_of_layout {b : Block} {length : Nat}
    (hlayout : b.bodyFields length = b.bodyFields b.codedLength)
    (hwidth : Field.totalWidth (b.bodyFields length) ≤ 8 * length) : b.codedLength ≤ length := by
  obtain ⟨-, hlt⟩ := length_bounds b
  rw [hlayout] at hwidth
  omega

/-- Primaries that are given, in one way or the other, are not left out. -/
theorem present_of_given {c : Chromaticities} {custom present : Prop}
    (hgiven : custom ∨ (!c.isZero) = true) (hcustom : custom → present)
    (habsent : ¬ present → c = {}) : present := by
  by_contra hnot
  rcases hgiven with h | hnonzero
  · exact hnot (hcustom h)
  · rw [habsent hnot] at hnonzero
    exact absurd hnonzero (by decide)

/-- No shorter length keeps a block. -/
theorem KeptIn.codedLength_le {b : Block} {length : Nat} (h : b.KeptIn length) :
    b.codedLength ≤ length := by
  have hwidth := h.totalWidth_le
  have hcovered := h.covered
  have hprimaries := h.primaries
  -- Vectors and trims ask for a length because they would be lost, and primaries also because they
  -- would not fit.  The other levels have one layout, and need only room for it.
  cases b with
  | level8 d =>
    obtain ⟨hten, hcontrast, hclip, hsaturation, hhue⟩ := hcovered
    simp only [codedLength]
    split_ifs with hhue' hsaturation' hclip' hcontrast'
    · by_contra hlt
      rw [hhue hlt] at hhue'
      exact absurd hhue' (by decide)
    · by_contra hlt
      rw [hsaturation hlt] at hsaturation'
      exact absurd hsaturation' (by decide)
    · by_contra hlt
      exact hclip' (hclip hlt)
    · by_contra hlt
      exact hcontrast' (hcontrast hlt)
    · exact hten
  | level9 d =>
    simp only [bodyFields, totalWidth_cons, totalWidth_ite, Chromaticities.totalWidth_fields]
      at hwidth
    simp only [codedLength]
    split
    · case isTrue hgiven =>
      rw [if_pos (present_of_given hgiven hprimaries hcovered)] at hwidth
      omega
    · omega
  | level10 d =>
    simp only [bodyFields, Field.totalWidth_append, totalWidth_cons, totalWidth_ite,
      Chromaticities.totalWidth_fields] at hwidth
    simp only [codedLength]
    split
    · case isTrue hgiven =>
      rw [if_pos (present_of_given hgiven hprimaries hcovered)] at hwidth
      omega
    · omega
  | _ => exact codedLength_le_of_layout rfl hwidth

/-- The body of a block is read from the bits of its layout. -/
theorem reads_fields {b : Block} (hfits : b.Fits) (rest : List Bool) :
    Reads (readBody b.group b.level b.codedLength) (Field.bits (b.bodyFields b.codedLength)) rest
      (some b) := by
  obtain ⟨w', hput, hwritten⟩ := appends_putFields (b.width_le b.codedLength) Writer.empty
  refine Reads.ofConveys hwritten ?_
  exact (conveys_body hput).congr (by rw [coded_eq_self hfits])

/-- The length with which a block is written keeps it. -/
theorem keptIn_codedLength {b : Block} (hfits : b.Fits) : b.KeptIn b.codedLength := by
  constructor
  · obtain ⟨bytes, hlength, hbytes⟩ := exists_ofBytes_eq b.length_bodyBits
    have hunread : (Reader.ofBytes bytes).unread = b.bodyBits := by
      rw [Reader.unread_ofBytes, hbytes]
    obtain ⟨r, hrun, -, -⟩ := reads_fields hfits _ _ (Reader.sound_ofBytes bytes) hunread
    exact ⟨bytes, hlength, r, hrun⟩
  · cases b with
    | level9 d =>
      intro hcustom
      rw [codedLength, if_pos (Or.inl hcustom)]
      decide
    | level10 d =>
      intro hcustom
      rw [codedLength, if_pos (Or.inl hcustom)]
      decide
    | _ => trivial

/-- **The length of a block is the shortest** that keeps it. -/
theorem isLeast_codedLength {b : Block} (hfits : b.Fits) :
    IsLeast {length | b.KeptIn length} b.codedLength := by
  constructor
  · exact keptIn_codedLength hfits
  · intro length hkept
    exact hkept.codedLength_le

/-- **A block comes back wherever it stands**: the code of its length and its level, then its body
and what fills the body up to the length, which is the shortest one that keeps the block. -/
theorem reads_shortest {b : Block} (hfits : b.Fits) (w : Writer) :
    (∃ w' front body fill, b.put w = .ok w' ∧ w'.written = w.written ++ (front ++ (body ++ fill)) ∧
      body.length + fill.length = 8 * b.codedLength ∧
      (∀ rest, Reads (do return (← Reader.unsignedCode, ← Reader.u8 8)) front rest
        (b.codedLength, b.level)) ∧
      (∀ rest, Reads (readBody b.group b.level b.codedLength) body rest (some b)) ∧
      ∀ rest, Reads (Reader.skip (8 * b.codedLength - body.length)) fill rest ()) ∧
    IsLeast {length | b.KeptIn length} b.codedLength := by
  refine ⟨?_, isLeast_codedLength hfits⟩
  obtain ⟨w', hput⟩ := b.puts w
  have hwritten := written_put hput
  have hlength := b.length_bodyBits
  rw [bodyBits, List.length_append] at hlength
  refine ⟨w', unsignedCodeBits b.codedLength ++ toBits 8 b.level.toNat, _, _, hput, ?_, hlength,
    fun rest => ?_, reads_fields hfits, fun rest => ?_⟩
  · rw [hwritten, Item.bits, List.append_assoc]
    rfl
  · have hcode : b.codedLength ≤ maxCode := (BlockGroup.codedLength_le b).trans (by decide)
    have hlevel := reads_u8 rest (by decide : 8 ≤ 32) b.level
    rw [lower8_eight] at hlevel
    exact (reads_unsignedCode _ hcode).bind (hlevel.andThen _)
  · have hskip := reads_skip rest
      (toBits (8 * b.codedLength - Field.totalWidth (b.bodyFields b.codedLength)) 0)
    rw [length_toBits] at hskip
    rwa [Field.length_bits]

/-- A block of level 8 in which only the last byte of the last vector needs the longest length. -/
def vectored : Block :=
  .level8 {
    targetDisplayIndex := 48
    trimSlope := 2048
    trimPower := 4095
    msWeight := 4095
    hueVectorField := #v[0, 0, 0, 0, 0, 128] }

/-- It comes back behind three bits, and from no fewer than 25 bytes. -/
theorem reads_shortest_vectored :
    vectored.Fits ∧ IsLeast {length | vectored.KeptIn length} 25 ∧
      ∃ w w' front body fill, Writer.empty.put 3 5 = .ok w ∧ vectored.put w = .ok w' ∧
        w'.written = [true, false, true] ++ (front ++ (body ++ fill)) ∧
        body.length + fill.length = 200 ∧
        ∀ rest, Reads (readBody .second 8 25) body rest (some vectored) := by
  have hfits : vectored.Fits := by simp [vectored, Fits]
  obtain ⟨w, hfront⟩ := Writer.exists_put (by decide : 3 ≤ 64) 5 Writer.empty
  obtain ⟨⟨w', front, body, fill, hput, hwritten, hlength, -, hbody, -⟩, hleast⟩ :=
    reads_shortest hfits w
  rw [(Writer.written_of_put hfront).2] at hwritten
  exact ⟨hfits, hleast, w, w', front, body, fill, hfront, hput, hwritten, hlength, hbody⟩

end Block

end DolbyVision
