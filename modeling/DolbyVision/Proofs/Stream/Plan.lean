/-
**What an encoder decides.**

A plan that an encoder makes holds metadata that passes all checks (`Plan.Valid`), and says of it
what is sent in full and what is only referred to (`Stream.Plans`).

Main definitions:

* `DolbyVision.Plan.Valid` — what the checks of an encoder establish;
* `DolbyVision.Stream.Plans` — a plan that an encoder makes for some metadata.

Main results:

* `DolbyVision.Plan.appends_putFlags`, `DolbyVision.Plan.Valid.exists_putColor` — the flags and the
  display management data of a valid plan can be written;
* `DolbyVision.Stream.plans_of_plan` — the plans of an encoder are such plans;
* `DolbyVision.Stream.Plans.full` — without compression everything is sent in full;
* `DolbyVision.Stream.encode_eq_ok` — **what an encoder that succeeds has planned, written and
  wrapped**.
-/

import DolbyVision.Proofs.Rpu.Writable
import DolbyVision.Stream.Encode

set_option relaxedAutoImplicit false
set_option autoImplicit false

namespace DolbyVision

/-- What the checks of an encoder establish about a plan. -/
structure Plan.Valid (p : Plan) : Prop where
  rpuType : p.metadata.header.rpuType = Stream.knownRpuType
  header : p.metadata.header.Valid
  mapping : p.metadata.mapping.Valid p.metadata.header.usesNlq
  id : p.metadata.mapping.id.toNat = p.id.val
  colorId : p.metadata.color.id.toNat ≤ maxId
  blocks : p.blocks = ({} : BlockSet).append p.metadata.blocks
  limits : p.blocks.WithinLimits
  /-- A color description that is sent has a bit depth that is accepted. -/
  bitDepth : p.hasColor = true → p.compressed = false →
    p.metadata.color.hasValidBitDepth = true
  hasColor : p.compressed = true → p.hasColor = true
  /-- Nothing is referred to in a stream without compression. -/
  uncompressed : p.configured = .none → p.reuses = false ∧ p.compressed = false

/-- The blocks of a valid plan stand with those of their sort. -/
theorem Plan.Valid.sorted {p : Plan} (hvalid : p.Valid) : p.blocks.Sorted := by
  rw [hvalid.blocks]
  exact BlockSet.sorted_empty.append _

/-! ### What can be written of every valid plan -/

namespace Plan

open Bits

variable {p : Plan}

/-- The flags of an RPU can be written wherever a writer stands.  The last one is there only if the
stream compresses. -/
theorem appends_putFlags (p : Plan) : Appends p.putFlags
    (p.hasColor :: p.reuses :: if p.configured = .none then [] else [p.compressed]) := by
  have hlast : Appends
      (fun w => if p.configured = .none then return w else w.putFlag p.compressed)
      (if p.configured = .none then [] else [p.compressed]) := by
    by_cases hnone : p.configured = .none
    · simp only [if_pos hnone]
      exact Appends.pure
    · simp only [if_neg hnone]
      exact appends_putFlag p.compressed
  exact (appends_putFlag p.hasColor).bind ((appends_putFlag p.reuses).bind hlast)

/-- The number of a slot has a code. -/
theorem code_fits (p : Plan) : p.id.val + 1 < 2 ^ 64 := by
  have hlt : p.id.val < maxId + 1 := p.id.isLt
  unfold maxId at hlt
  omega

/-- There are not many blocks in a group. -/
theorem Valid.length_sentBlocks_le (hvalid : p.Valid) (group : BlockGroup) :
    (p.sentBlocks group).length ≤ 32 := by
  have hsent : (p.sentBlocks group).length ≤ p.blocks.toList.length := List.length_filter_le ..
  have hstatic := hvalid.limits.static_le
  have hdynamic := hvalid.limits.dynamic_le
  rw [BlockSet.toList, List.length_append] at hsent
  unfold BlockSet.maxStatic at hstatic
  unfold BlockSet.maxDynamic at hdynamic
  omega

/-- Blocks can be written in their groups. -/
theorem Valid.exists_putBlocks (hvalid : p.Valid) (w : Writer) :
    ∃ w', p.putBlocks w = .ok w' := by
  have hputs (group : BlockGroup) : Puts BlockGroup.put (p.sentBlocks group) :=
    BlockGroup.puts ((Nat.succ_le_succ (hvalid.length_sentBlocks_le group)).trans_lt (by decide))
  refine Checked.exists_bind (hputs .first w) fun w => ?_
  dsimp only
  split
  · exact ⟨w, rfl⟩
  · exact hputs .second w

/-- **Display management data can be written**, whatever of it is sent. -/
theorem Valid.exists_putColor (hvalid : p.Valid) (w : Writer) : ∃ w', p.putColor w = .ok w' := by
  refine Checked.exists_bind (Writer.exists_putUnsignedCode (byte_fits _) w) fun w => ?_
  refine Checked.exists_bind (Writer.exists_putUnsignedCode (byte_fits _) w) fun w => ?_
  refine Checked.exists_bind (Writer.exists_putUnsignedCode (byte_fits _) w) fun w => ?_
  refine Checked.exists_bindIf (fun _ => ⟨w, rfl⟩) (fun _ => ?_) hvalid.exists_putBlocks
  exact Writer.exists_putFields (SourceColor.width_le _) w

end Plan

/-! ### Planning and writing -/

namespace Stream

variable {s : Stream} {m : Metadata} {options : EncodeOptions} {p : Plan}

/-- A plan that an encoder makes for some metadata. -/
structure Plans (s : Stream) (m : Metadata) (options : EncodeOptions) (p : Plan) : Prop where
  valid : p.Valid
  metadata : p.metadata = m
  profile : s.configuration.profile ≠ 0
  configured : p.configured = s.configuration.compression
  compression : p.compression = s.usedCompression options
  reuses : p.reuses = s.reusesMapping p.compression p.id m.mapping
  hasColor : p.hasColor = (m.color != .assumed || !p.blocks.isEmpty)
  compressed :
    p.compressed = (p.hasColor && p.compression != .none && s.repeatsColor m.color p.blocks)

/-- In a stream without compression none is used. -/
theorem usedCompression_eq_none (h : s.configuration.compression = .none) :
    s.usedCompression options = .none := by
  unfold usedCompression
  split
  · exact h
  · rfl

/-- The plans of an encoder are valid, and say what they are made from. -/
theorem plans_of_plan (hplan : s.plan m options = .ok p) : s.Plans m options p := by
  unfold plan at hplan
  obtain ⟨hprofile, hplan⟩ := Checked.ok_of_check hplan
  obtain ⟨hrpuType, hplan⟩ := Checked.ok_of_check hplan
  obtain ⟨⟨⟩, hheader, hplan⟩ := Checked.ok_of_bind hplan
  obtain ⟨⟨⟩, hmapping, hplan⟩ := Checked.ok_of_bind hplan
  obtain ⟨hcolorId, hplan⟩ := Checked.ok_of_check hplan
  obtain ⟨blocks, hblocks, hplan⟩ := Checked.ok_of_bind hplan
  obtain ⟨-, hplan⟩ := Checked.ok_of_check hplan
  dsimp only at hplan
  split at hplan
  · case isTrue hid =>
    -- The last check is about the bit depth of a description that is sent.
    obtain ⟨hdepth, hplan⟩ := Checked.ok_of_check hplan
    obtain rfl := Except.ok.inj hplan
    obtain ⟨hlimits, hset⟩ := BlockSet.ofList_eq_ok hblocks
    refine ⟨?_, rfl, hprofile, rfl, rfl, rfl, rfl, rfl⟩
    refine ⟨not_not.1 hrpuType, Header.valid_of_validate hheader,
      Mapping.valid_of_validate hmapping, rfl, Nat.le_of_not_lt hcolorId, hset, hlimits, ?_, ?_, ?_⟩
    · intro hhas hcompressed
      dsimp only at hhas hcompressed
      rw [hcompressed, hhas] at hdepth
      simpa using hdepth
    · intro hcompressed
      dsimp only at hcompressed ⊢
      rw [Bool.and_eq_true, Bool.and_eq_true] at hcompressed
      exact hcompressed.1.1
    · intro hnone
      have hused : s.usedCompression options = .none := usedCompression_eq_none hnone
      dsimp only
      rw [hused]
      exact ⟨rfl, by simp⟩
  · cases hplan

/-- Without compression everything is sent in full. -/
theorem Plans.full (hplans : s.Plans m options p) (hplain : options.compress = false) :
    p.reuses = false ∧ p.compressed = false := by
  have hnone : p.compression = .none := by
    rw [hplans.compression]
    simp [usedCompression, hplain]
  rw [hplans.reuses, hplans.compressed, hnone]
  exact ⟨rfl, by simp⟩

/-- **What an encoder that succeeds has planned, written and wrapped.** -/
theorem encode_eq_ok {out : List UInt8} (hencode : (s.encode (some m) options).result = .ok out) :
    ∃ p rpu, s.plan m options = .ok p ∧ p.rpu = .ok rpu ∧ options.wrap rpu = .ok out ∧
      s.encode (some m) options = ⟨.ok out, s.commit p, [.generated rpu.length]⟩ := by
  unfold encode at hencode ⊢
  dsimp only at hencode ⊢
  split at hencode
  · cases hencode
  · case h_2 p rpu out' hwritten =>
    obtain rfl := Except.ok.inj hencode
    have hsteps := hwritten
    obtain ⟨p', hplan, hsteps⟩ := Checked.ok_of_bind hsteps
    obtain ⟨rpu', hrpu, hsteps⟩ := Checked.ok_of_bind hsteps
    obtain ⟨out', hwrap, hsteps⟩ := Checked.ok_of_bind hsteps
    cases hsteps
    exact ⟨p, rpu, hplan, hrpu, hwrap, rfl⟩

/-- An encoder that can plan, write and wrap an RPU succeeds. -/
theorem encode_of_plan {rpu out : List UInt8} (hplan : s.plan m options = .ok p)
    (hrpu : p.rpu = .ok rpu) (hwrap : options.wrap rpu = .ok out) :
    s.encode (some m) options = ⟨.ok out, s.commit p, [.generated rpu.length]⟩ := by
  simp only [encode, hplan, hrpu, hwrap, bind, Except.bind, pure, Except.pure]

/-- An encoder that fails is as it was. -/
theorem state_encode_of_error {fault : Fault}
    (hencode : (s.encode (some m) options).result = .error fault) :
    (s.encode (some m) options).state = s := by
  unfold encode at hencode ⊢
  dsimp only at hencode ⊢
  split at hencode
  · rfl
  · cases hencode

end Stream

end DolbyVision
