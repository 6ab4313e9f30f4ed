/-
**Compression never makes an RPU longer.**

An encoder that may leave out what it has sent before writes whatever it would write without
leaving anything out, and the result is no longer: it is shorter by a byte or more if a mapping or a
color description is left out.  What is left out moves the rest to the front, but only a group of
blocks starts at a byte boundary, so a byte that is saved in front of it stays saved.

Main definitions:

* `DolbyVision.Plan.leavingOut` — a plan of which parts are left out;
* `DolbyVision.Plan.savedBits` — what is saved at least.

Main results:

* `DolbyVision.BlockGroup.put_saves` — **what is saved in front of a group stays saved**;
* `DolbyVision.Plan.put_leavingOut` — a plan can be written if it can be written in full, and saves
  what it leaves out;
* `DolbyVision.EncodeOptions.wrap_saves` — what is shorter is shorter in a message as well;
* `DolbyVision.Stream.compression_shortens` — **an encoder that compresses succeeds where another
  does**, and writes no more.
-/

import DolbyVision.Proofs.Rpu.Movable
import DolbyVision.Proofs.Stream.Invariant
import DolbyVision.Proofs.Stream.Transport
import Mathlib.Algebra.Order.BigOperators.Group.List
import Mathlib.Data.Nat.Log

set_option relaxedAutoImplicit false
set_option autoImplicit false

namespace DolbyVision

open Bits

/-! ### Codes and boundaries -/

/-- A smaller number has no longer a code. -/
theorem Bits.length_unsignedCodeBits_le {m n : Nat} (h : m ≤ n) :
    (unsignedCodeBits m).length ≤ (unsignedCodeBits n).length := by
  have hlog : (m + 1).log2 ≤ (n + 1).log2 := by
    rw [Nat.log2_eq_log_two, Nat.log2_eq_log_two]
    exact Nat.log_mono_right (Nat.succ_le_succ h)
  simp only [unsignedCodeBits, List.length_append, List.length_replicate, length_toBits]
  omega

/-- Whole bytes that are saved in front of a boundary are saved behind it. -/
theorem Bits.add_padding_saves {m n saved : Nat} (hbytes : 8 ∣ saved) (h : m + saved ≤ n) :
    m + padding m + saved ≤ n + padding n := by
  unfold padding
  omega

/-! ### Groups -/

/-- **What is saved in front of a group stays saved**, whatever blocks of it are left out. -/
theorem BlockGroup.put_saves {w w' v : Writer} {blocks sent : List Block} {saved : Nat}
    (hsent : sent.Sublist blocks) (hbytes : 8 ∣ saved)
    (hsaved : v.written.length + saved ≤ w.written.length) (hput : put w blocks = .ok w') :
    ∃ v', put v sent = .ok v' ∧ v'.written.length + saved ≤ w'.written.length := by
  obtain ⟨w₁, -, hcount, -, -⟩ := ok_put hput
  have hfits := Writer.lt_of_putUnsignedCode hcount
  have hfewer := hsent.length_le
  obtain ⟨v', hv⟩ := BlockGroup.puts (show sent.length + 1 < 2 ^ 64 by omega) v
  refine ⟨v', hv, ?_⟩
  have hcode := length_unsignedCodeBits_le hfewer
  have hblocks : (sent.map codedBits).sum ≤ (blocks.map codedBits).sum :=
    (hsent.map codedBits).sum_le_sum fun _ _ => Nat.zero_le _
  have hstart := add_padding_saves hbytes (show
    v.written.length + (unsignedCodeBits sent.length).length + saved ≤
      w.written.length + (unsignedCodeBits blocks.length).length by omega)
  rw [length_put hput, length_put hv]
  omega

/-! ### Plans -/

namespace Plan

variable {p : Plan} {compression : Compression} {reuses compressed : Bool} {w w' v : Writer}

/-- A plan of which the mapping, or the color description and the static blocks, are left out. -/
def leavingOut (p : Plan) (compression : Compression) (reuses compressed : Bool) : Plan :=
  { p with compression, reuses, compressed }

/-- The number of bits that are saved at least if something is left out. -/
def savedBits (leftOut : Bool) : Nat :=
  if leftOut then 8 else 0

theorem dvd_savedBits (leftOut : Bool) : 8 ∣ savedBits leftOut := by
  cases leftOut <;> decide

/-- The flags say what is left out, in as many bits. -/
theorem putFlags_leavingOut (hput : p.putFlags w = .ok w') :
    ∃ v', (p.leavingOut compression reuses compressed).putFlags w = .ok v' ∧
      v'.written.length = w'.written.length := by
  obtain ⟨v', hv, hwritten⟩ := appends_putFlags (p.leavingOut compression reuses compressed) w
  refine ⟨v', hv, ?_⟩
  rw [hwritten, (appends_putFlags p).written hput]
  by_cases hnone : p.configured = .none <;> simp [leavingOut, hnone]

/-- A mapping that is left out saves its bits. -/
theorem putMapping_leavingOut (hheader : p.metadata.header.Valid) (hfull : p.reuses = false)
    (hlength : v.written.length = w.written.length) (hput : p.putMapping w = .ok w') :
    ∃ v', (p.leavingOut compression reuses compressed).putMapping v = .ok v' ∧
      v'.written.length + savedBits reuses ≤ w'.written.length := by
  obtain ⟨w₁, hid, hput⟩ := Checked.ok_of_bind hput
  rw [hfull, if_neg Bool.false_ne_true] at hput
  obtain ⟨v₁, hid', hcode⟩ := (movable_putUnsignedCode _).elsewhere hid v
  cases reuses with
  | true =>
    have hsaved := Mapping.length_put_ge hheader hput
    have hbyte : savedBits true = 8 := rfl
    refine ⟨v₁, Checked.bind_ok hid', ?_⟩
    rw [hbyte]
    omega
  | false =>
    obtain ⟨v', hv, hsame⟩ := (Mapping.movable_put _ _).elsewhere hput v₁
    refine ⟨v', (Checked.bind_ok hid').trans hv, ?_⟩
    have hnone : savedBits false = 0 := rfl
    rw [hnone]
    omega

/-- Of the blocks of a group, only static ones are left out. -/
theorem sentBlocks_leavingOut (hfull : p.compressed = false) (group : BlockGroup) :
    ((p.leavingOut compression reuses compressed).sentBlocks group).Sublist
      (p.sentBlocks group) := by
  refine List.monotone_filter_right _ fun b hb => ?_
  rw [Bool.and_eq_true] at hb ⊢
  exact ⟨hb.1, by rw [hfull]; rfl⟩

/-- What is saved in front of the groups stays saved, also if there is no second group any more. -/
theorem putBlocks_leavingOut {saved : Nat} (hfull : p.compressed = false) (hbytes : 8 ∣ saved)
    (hsaved : v.written.length + saved ≤ w.written.length) (hput : p.putBlocks w = .ok w') :
    ∃ v', (p.leavingOut compression reuses compressed).putBlocks v = .ok v' ∧
      v'.written.length + saved ≤ w'.written.length := by
  set q := p.leavingOut compression reuses compressed with hq
  have hsent (group : BlockGroup) : (q.sentBlocks group).Sublist (p.sentBlocks group) :=
    sentBlocks_leavingOut hfull group
  obtain ⟨w₁, hfirst, hsecond⟩ := Checked.ok_of_bind hput
  obtain ⟨v₁, hv₁, hsaved₁⟩ := BlockGroup.put_saves (hsent .first) hbytes hsaved hfirst
  have hparts : q.putBlocks v = if (q.sentBlocks .second).isEmpty then return v₁
      else BlockGroup.put v₁ (q.sentBlocks .second) := Checked.bind_ok hv₁
  rw [hparts]
  dsimp only at hsecond
  by_cases hnone : (p.sentBlocks .second).isEmpty = true
  · have hnone' : (q.sentBlocks .second).isEmpty = true := by
      rw [List.isEmpty_iff] at hnone ⊢
      exact List.sublist_nil.1 (hnone ▸ hsent .second)
    rw [if_pos hnone] at hsecond
    obtain rfl := Except.ok.inj hsecond
    rw [if_pos hnone']
    exact ⟨v₁, rfl, hsaved₁⟩
  · rw [if_neg hnone] at hsecond
    by_cases hnone' : (q.sentBlocks .second).isEmpty = true
    · have hgrows := BlockGroup.length_put_ge hsecond
      rw [if_pos hnone']
      exact ⟨v₁, rfl, by omega⟩
    · rw [if_neg hnone']
      exact BlockGroup.put_saves (hsent .second) hbytes hsaved₁ hsecond

/-- A color description takes a byte or more. -/
theorem color_ge (c : SourceColor) : 8 ≤ Field.totalWidth c.fields := by
  have hdepths : Field.totalWidth [⟨16, c.eotf.toNat⟩, ⟨16, c.eotfParam0.toNat⟩,
      ⟨16, c.eotfParam1.toNat⟩, ⟨32, c.eotfParam2.toNat⟩, ⟨5, c.bitDepth.toNat⟩,
      ⟨2, c.colorSpace.toNat⟩, ⟨2, c.chromaFormat.toNat⟩, ⟨2, c.fullRange.toNat⟩,
      ⟨12, c.minPq.toNat⟩, ⟨12, c.maxPq.toNat⟩, ⟨10, c.diagonal.toNat⟩] = 125 := rfl
  unfold SourceColor.fields
  rw [Field.totalWidth_append, hdepths]
  omega

/-- A color description that is left out saves its bits, and what was saved before stays saved. -/
theorem putColor_leavingOut (hfull : p.compressed = false)
    (hsaved : v.written.length + savedBits reuses ≤ w.written.length)
    (hput : p.putColor w = .ok w') :
    ∃ v', (p.leavingOut compression reuses compressed).putColor v = .ok v' ∧
      v'.written.length + savedBits (reuses || compressed) ≤ w'.written.length := by
  have hcolor := color_ge p.metadata.color
  obtain ⟨w₁, w₂, w₃, w₄, hfirst, hrepeat, hrefresh, hfields, hblocks⟩ := Stream.ok_putColor hput
  rw [hfull, if_neg Bool.false_ne_true] at hfields
  -- The codes in front of the description are the same in both.
  obtain ⟨v₁, hfirst', hlength₁⟩ := (movable_putUnsignedCode _).elsewhere hfirst v
  obtain ⟨v₂, hrepeat', hlength₂⟩ := (movable_putUnsignedCode _).elsewhere hrepeat v₁
  obtain ⟨v₃, hrefresh', hlength₃⟩ := (movable_putUnsignedCode _).elsewhere hrefresh v₂
  obtain ⟨v₄, hfields', hsaved₄⟩ : ∃ v₄,
      (if compressed then pure v₃ else v₃.putFields p.metadata.color.fields) = .ok v₄ ∧
        v₄.written.length + savedBits (reuses || compressed) ≤ w₄.written.length := by
    cases compressed with
    | true =>
      have hmost : savedBits (reuses || true) ≤ 8 := by cases reuses <;> decide
      rw [Writer.written_of_putFields hfields, List.length_append, Field.length_bits]
      exact ⟨v₃, if_pos rfl, by omega⟩
    | false =>
      obtain ⟨v₄, hfields', hlength₄⟩ := (movable_putFields _).elsewhere hfields v₃
      rw [Bool.or_false]
      exact ⟨v₄, (if_neg Bool.false_ne_true).trans hfields', by omega⟩
  have hparts : (p.leavingOut compression reuses compressed).putColor v =
      (p.leavingOut compression reuses compressed).putBlocks v₄ :=
    Stream.putColor_of_parts hfirst' hrepeat' hrefresh' hfields'
  rw [hparts]
  exact putBlocks_leavingOut hfull (dvd_savedBits _) hsaved₄ hblocks

/-- **A plan of which parts are left out can be written if it can be written in full**, and takes a
byte less if something is left out. -/
theorem put_leavingOut (hheader : p.metadata.header.Valid) (hreuses : p.reuses = false)
    (hcompressed : p.compressed = false) (hcolor : compressed = true → p.hasColor = true)
    (hput : p.put w = .ok w') :
    ∃ v', (p.leavingOut compression reuses compressed).put w = .ok v' ∧
      v'.written.length + savedBits (reuses || compressed) ≤ w'.written.length := by
  set q := p.leavingOut compression reuses compressed with hq
  obtain ⟨w₁, w₂, w₃, hheaderPut, hflags, hmapping, hput⟩ := Stream.ok_put hput
  obtain ⟨v₂, hflags', hlength⟩ : ∃ v₂, q.putFlags w₁ = .ok v₂ ∧
      v₂.written.length = w₂.written.length := putFlags_leavingOut hflags
  obtain ⟨v₃, hmapping', hsaved⟩ : ∃ v₃, q.putMapping v₂ = .ok v₃ ∧
      v₃.written.length + savedBits reuses ≤ w₃.written.length :=
    putMapping_leavingOut hheader hreuses hlength hmapping
  have hrest : q.put w = if p.hasColor then q.putColor v₃ else return v₃ :=
    Stream.put_of_parts hheaderPut hflags' hmapping'
  rw [hrest]
  by_cases hhas : p.hasColor = true
  · rw [if_pos hhas] at hput ⊢
    exact putColor_leavingOut hcompressed hsaved hput
  · have hnone : compressed = false := by
      rw [← Bool.not_eq_true]
      exact fun hc => hhas (hcolor hc)
    rw [if_neg hhas] at hput ⊢
    obtain rfl := Except.ok.inj hput
    exact ⟨v₃, rfl, by rwa [hnone, Bool.or_false]⟩

end Plan

/-! ### Wrapping -/

/-- What is wrapped in a message, or not at all, is no longer if it was not. -/
theorem EncodeOptions.wrap_saves {options : EncodeOptions} {full rpu out : List UInt8}
    (hnal : options.nal = false) (hshorter : rpu.length ≤ full.length)
    (hwrap : options.wrap full = .ok out) :
    ∃ out', options.wrap rpu = .ok out' ∧ out'.length ≤ out.length ∧
      (rpu.length < full.length → out'.length < out.length) := by
  unfold EncodeOptions.wrap at hwrap ⊢
  rw [hnal] at hwrap ⊢
  cases ht35 : options.t35 with
  | true =>
    rw [ht35, if_pos rfl] at hwrap
    obtain ⟨hmax, rfl⟩ := T35.wrap_eq_ok hwrap
    refine ⟨T35.message rpu, by rw [if_pos rfl, T35.wrap_of_le (hshorter.trans hmax)], ?_⟩
    rw [T35.length_message, T35.length_message]
    split_ifs <;> omega
  | false =>
    rw [ht35] at hwrap
    obtain rfl := Except.ok.inj hwrap
    exact ⟨rpu, rfl, hshorter, id⟩

/-! ### Encoders -/

namespace Stream

variable {s : Stream} {m : Metadata} {options : EncodeOptions} {p : Plan}

/-- With compression an encoder plans the same, and leaves out what it has sent before. -/
theorem plan_compress (hplain : options.compress = false) (hplan : s.plan m options = .ok p) :
    ∃ reuses compressed, (compressed = true → p.hasColor = true) ∧
      s.plan m { options with compress := true } =
        .ok (p.leavingOut s.configuration.compression reuses compressed) := by
  have hnone : s.usedCompression options = .none := by simp [usedCompression, hplain]
  have hused : s.usedCompression { options with compress := true } =
      s.configuration.compression := rfl
  unfold plan at hplan ⊢
  obtain ⟨hprofile, hplan⟩ := Checked.ok_of_check hplan
  obtain ⟨hrpuType, hplan⟩ := Checked.ok_of_check hplan
  obtain ⟨⟨⟩, hheader, hplan⟩ := Checked.ok_of_bind hplan
  obtain ⟨⟨⟩, hmapping, hplan⟩ := Checked.ok_of_bind hplan
  obtain ⟨hcolorId, hplan⟩ := Checked.ok_of_check hplan
  obtain ⟨blocks, hblocks, hplan⟩ := Checked.ok_of_bind hplan
  obtain ⟨hreserved, hplan⟩ := Checked.ok_of_check hplan
  dsimp only at hplan
  split at hplan
  · case isTrue hid =>
    obtain ⟨hdepth, hplan⟩ := Checked.ok_of_check hplan
    obtain rfl := Except.ok.inj hplan
    -- The bit depth of a description that is left out does not matter.
    have hdepth' (compressed : Bool) : ¬ ((m.color != .assumed || !blocks.isEmpty) = true ∧
        (!compressed) = true ∧ (!m.color.hasValidBitDepth) = true) := by
      rw [hnone] at hdepth
      rintro ⟨hhas, -, hinvalid⟩
      exact hdepth ⟨hhas, by simp, hinvalid⟩
    rw [if_neg hprofile, if_neg hrpuType, hheader, hmapping]
    simp only [bind, Except.bind]
    rw [if_neg hcolorId, hblocks]
    dsimp only
    rw [if_neg hreserved, dif_pos hid, hused, if_neg (hdepth' _)]
    refine ⟨_, _, ?_, rfl⟩
    intro hcompressed
    rw [Bool.and_eq_true, Bool.and_eq_true] at hcompressed
    exact hcompressed.1.1
  · cases hplan

/-- **An encoder that compresses succeeds where another does**, and writes no more.  If it leaves
out the mapping or the color description, it writes less. -/
theorem compression_shortens (s : Stream) (m : Metadata) (options : EncodeOptions)
    (hplain : options.compress = false) (hnal : options.nal = false) {full : List UInt8}
    (hfull : (s.encode (some m) options).result = .ok full) :
    ∃ p out, s.plan m { options with compress := true } = .ok p ∧
      (s.encode (some m) { options with compress := true }).result = .ok out ∧
        out.length ≤ full.length ∧
          (p.reuses = true ∨ p.compressed = true → out.length < full.length) := by
  obtain ⟨p, rpu, hplan, hrpu, hwrap, -⟩ := encode_eq_ok hfull
  have hplans := plans_of_plan hplan
  obtain ⟨hreuses, hcompressed⟩ := hplans.full hplain
  obtain ⟨w, body, hput, hfinish, rfl⟩ := Plan.exists_writer hrpu
  obtain ⟨reuses, compressed, hcolor, hplan'⟩ := plan_compress hplain hplan
  obtain ⟨v, hput', hsaved⟩ : ∃ v,
      (p.leavingOut s.configuration.compression reuses compressed).put Writer.empty = .ok v ∧
        v.written.length + Plan.savedBits (reuses || compressed) ≤ w.written.length :=
    Plan.put_leavingOut hplans.valid.header hreuses hcompressed hcolor hput
  -- Saved bytes are saved behind the padding at the end, and in the wrapping.
  have hbytes := add_padding_saves (Plan.dvd_savedBits _) hsaved
  obtain ⟨body', hfinish', -⟩ := v.exists_finish
  have hfullBits := Plan.length_attach hfinish
  have hbits := Plan.length_attach hfinish'
  unfold rpuBits at hfullBits hbits
  have hshorter : (Tail.attach body').length ≤ (Tail.attach body).length := by omega
  obtain ⟨out, hwrap', hle, hlt⟩ := EncodeOptions.wrap_saves hnal hshorter hwrap
  refine ⟨_, out, hplan', ?_, hle, fun hleft => hlt ?_⟩
  · rw [encode_of_plan hplan' (Plan.rpu_eq hput' hfinish') hwrap']
  · have hsome : (reuses || compressed) = true := by
      rw [Bool.or_eq_true]
      exact hleft
    have hbyte : Plan.savedBits (reuses || compressed) = 8 := by rw [hsome]; rfl
    omega

/-- An encoder with limited compression that has written some metadata. -/
def repeating : Stream :=
  (encode { configuration := { profile := 8, compression := .limited } }
    (some LabelledStream.graded) {}).state

/-- If it has to write the same metadata again, it leaves out the mapping and the color description
and writes less. -/
theorem compression_shortens_repeating : ∃ full p out,
    (repeating.encode (some LabelledStream.graded) {}).result = .ok full ∧
      repeating.plan LabelledStream.graded { compress := true } = .ok p ∧
        p.reuses = true ∧ p.compressed = true ∧
          (repeating.encode (some LabelledStream.graded) { compress := true }).result = .ok out ∧
            out.length < full.length := by
  obtain ⟨full, hfull⟩ := Checked.exists_ok
    (x := (repeating.encode (some LabelledStream.graded) {}).result) (by decide +kernel)
  obtain ⟨p, out, hplan, hout, -, hlt⟩ :=
    compression_shortens repeating LabelledStream.graded {} rfl rfl hfull
  have hleft : (repeating.plan LabelledStream.graded { compress := true }).toOption.any
      (fun p => p.reuses && p.compressed) = true := by decide +kernel
  rw [hplan] at hleft
  obtain ⟨hreuses, hcompressed⟩ := Bool.and_eq_true_iff.1 hleft
  exact ⟨full, p, out, hfull, hplan, hreuses, hcompressed, hout, hlt (Or.inl hreuses)⟩

end Stream

end DolbyVision
