/-
**A configuration record is read back.**

Main definitions:

* `DolbyVision.Configuration.Fits` — the fields of a record fit in their bits;
* `DolbyVision.Configuration.truncated` — a record without the fields that old records leave out.

Main results:

* `DolbyVision.Configuration.conveys_fields`, `conveys_truncated` — the fields are read back, with
  or without those that old records leave out;
* `DolbyVision.Configuration.exists_write` — **every record can be written**, and how;
* `DolbyVision.Configuration.read_write_append`, `read_write` — **a record whose fields fit is read
  as it was written**;
* `DolbyVision.Parameters.extraData?_replaceExtraData` — extra data is found where it was put.
-/

import DolbyVision.Configuration.Record
import DolbyVision.Proofs.Bits.Conveys
import DolbyVision.Video.Codec

set_option relaxedAutoImplicit false
set_option autoImplicit false

namespace DolbyVision

open Bits

namespace Configuration

/-- The fields of a record fit in their bits. -/
structure Fits (c : Configuration) : Prop where
  profile : c.profile.toNat < 2 ^ 7
  level : c.level.toNat < 2 ^ 6
  compatibilityId : c.compatibilityId.toNat < 2 ^ 4

variable {c : Configuration} {size : Nat}

/-- A field of a byte is read back if the byte fits in it. -/
theorem conveys_byte {width : Nat} {v : UInt8} {w w' : Writer} (h32 : width ≤ 32)
    (hfits : v.toNat < 2 ^ width) (hput : w.put width v.toNat = .ok w') :
    Conveys size w w' (Reader.bits32 width) v.toNat :=
  (conveys_bits32 h32 hput).congr (Nat.mod_eq_of_lt hfits)

/-- Reads the fields that old records leave out. -/
def optionalParser (record : Configuration) : BitParser Configuration := do
  if (← get).bitsLeft < 8 then
    return record
  let compatibilityId ← Reader.bits32 4
  let compression ← Reader.bits32 2
  return { record with
    compatibilityId := .ofNat compatibilityId
    compression := .ofCode compression }

/-- A record without the fields that old records leave out. -/
def truncated (c : Configuration) : Configuration :=
  { c with compatibilityId := 0, compression := .none }

/-- The fields that all records have are read back, whatever is made of the others. -/
theorem conveys_required (hfits : c.Fits) {w₁ w : Writer} {c' : Configuration}
    (hput : Writer.empty.putFields (c.fields.take 7) = .ok w₁)
    (hrest : Conveys size w₁ w (optionalParser c.truncated) c') :
    Conveys size Writer.empty w fieldsParser c' := by
  unfold fieldsParser
  refine Conveys.bindField hput (fun _ => conveys_byte (by decide) c.versionMajor.toNat_lt)
    fun _ hput => ?_
  refine Conveys.bindField hput (fun _ => conveys_byte (by decide) c.versionMinor.toNat_lt)
    fun _ hput => ?_
  refine Conveys.bindField hput (fun _ => conveys_byte (by decide) hfits.profile) fun _ hput => ?_
  refine Conveys.bindField hput (fun _ => conveys_byte (by decide) hfits.level) fun _ hput => ?_
  refine Conveys.bindField hput (fun _ => conveys_flag) fun _ hput => ?_
  refine Conveys.bindField hput (fun _ => conveys_flag) fun _ hput => ?_
  refine Conveys.bindField hput (fun _ => conveys_flag) fun _ hput => ?_
  obtain rfl := Except.ok.inj hput
  simp only [UInt8.ofNat_toNat]
  exact hrest

/-- The number of bits of the fields that all records have. -/
theorem length_written_required {w : Writer}
    (hput : Writer.empty.putFields (c.fields.take 7) = .ok w) : w.written.length = 32 := by
  rw [Writer.written_of_putFields hput, Writer.written_empty, List.nil_append, Field.length_bits]
  rfl

/-- The fields of a record are read back, if there is something behind the first four bytes. -/
theorem conveys_fields (hfits : c.Fits) (hsize : 40 ≤ size) {w : Writer}
    (hput : Writer.empty.putFields (c.fields.take 9) = .ok w) :
    Conveys size Writer.empty w fieldsParser c := by
  have hsplit : c.fields.take 9 = c.fields.take 7 ++
      [⟨4, c.compatibilityId.toNat⟩, ⟨2, c.compression.code⟩] := rfl
  rw [hsplit, Writer.putFields_append] at hput
  obtain ⟨w₁, hrequired, hput⟩ := Checked.ok_of_bind hput
  refine conveys_required hfits hrequired (Conveys.bindGet fun r hr => ?_)
  have hleft : ¬ r.bitsLeft < 8 := by
    rw [length_written_required hrequired] at hr
    omega
  have hcompression : c.compression.code % 2 ^ 2 = c.compression.code := by
    cases c.compression <;> rfl
  rw [if_neg hleft]
  refine Conveys.bindField hput (fun _ => conveys_byte (by decide) hfits.compatibilityId)
    fun _ hput => ?_
  refine Conveys.bindField hput (fun _ => conveys_bits32 (by decide)) fun _ hput => ?_
  obtain rfl := Except.ok.inj hput
  rw [hcompression, Compression.ofCode_code]
  refine (Conveys.pure _).congr ?_
  simp only [UInt8.ofNat_toNat, truncated]

/-- A record that ends after the fields that all records have is read without the others. -/
theorem conveys_truncated (hfits : c.Fits) (hsize : size = 32) {w : Writer}
    (hput : Writer.empty.putFields (c.fields.take 7) = .ok w) :
    Conveys size Writer.empty w fieldsParser c.truncated := by
  refine conveys_required hfits hput (Conveys.bindGet fun r hr => ?_)
  have hleft : r.bitsLeft < 8 := by
    rw [length_written_required hput] at hr
    omega
  rw [if_pos hleft]
  exact Conveys.pure _

theorem width_le (c : Configuration) : ∀ f ∈ c.fields, f.width ≤ 64 := by
  simp [fields]

/-- Some of the first fields of a record can be written. -/
theorem exists_putFields_take (c : Configuration) (n : Nat) :
    ∃ w, Writer.empty.putFields (c.fields.take n) = .ok w ∧
      w.written = Field.bits (c.fields.take n) := by
  obtain ⟨w, hput, hwritten⟩ :=
    appends_putFields (fun f hf => c.width_le f (List.mem_of_mem_take hf)) Writer.empty
  exact ⟨w, hput, hwritten⟩

theorem ofBytes_replicate_zero (n : Nat) :
    ofBytes (List.replicate n 0) = List.replicate (8 * n) false := by
  induction n with
  | zero => rfl
  | succ n ih =>
    rw [List.replicate_succ, ofBytes_cons, ih, UInt8.toNat_zero, toBits_zero_right,
      List.replicate_append_replicate, Nat.mul_succ, Nat.add_comm]

/-- **Every record can be written**: as its fields, with zeros behind them. -/
theorem exists_write (c : Configuration) : ∃ bytes, c.write = .ok bytes ∧
    bytes.length = Configuration.size ∧
    ofBytes bytes = Field.bits (c.fields.take 9) ++ List.replicate 154 false := by
  obtain ⟨w, hput, hwritten⟩ := appends_putFields c.width_le Writer.empty
  obtain ⟨bytes, hfinish, hbytes⟩ := w.exists_finish
  have hfields : w.written = Field.bits (c.fields.take 9) ++ List.replicate 26 false := by
    rw [hwritten, Writer.written_empty, List.nil_append, ← toBits_zero_right]
    simp [fields]
  have hbits : w.written.length = 64 := by
    rw [hfields, List.length_append, Field.length_bits, List.length_replicate]
    rfl
  rw [hbits, hfields] at hbytes
  have hlength : bytes.length = 8 := by
    have hcount := congrArg List.length hbytes
    rw [← hfields, length_ofBytes, List.length_append, hbits, List.length_replicate] at hcount
    unfold padding at hcount
    omega
  refine ⟨bytes ++ List.replicate (size - bytes.length) 0, ?_, ?_, ?_⟩
  · rw [write, Checked.bind_ok hput, Checked.bind_ok hfinish]
    rfl
  · rw [List.length_append, List.length_replicate, hlength]
    rfl
  · rw [ofBytes_append, hbytes, hlength, ofBytes_replicate_zero, List.append_assoc,
      List.append_assoc, List.replicate_append_replicate, List.replicate_append_replicate]
    rfl

/-- What is conveyed by the first bits of a byte string is read from it. -/
theorem read_of_conveys {bytes : List UInt8} {w : Writer} (hlength : 4 ≤ bytes.length)
    (hconveys : Conveys (ofBytes bytes).length Writer.empty w fieldsParser c)
    (hstart : w.written <+: ofBytes bytes) : read bytes = .ok c := by
  obtain ⟨bits, hbits, hreads⟩ := hconveys
  obtain ⟨rest, hrest⟩ := hstart
  rw [Writer.written_empty, List.nil_append] at hbits
  obtain ⟨r, hrun, -⟩ := hreads rest (by rw [← hrest, List.length_append])
    (Reader.ofBytes bytes) (Reader.sound_ofBytes _) (by
      change (Reader.ofBytes bytes).unread = _
      rw [Reader.unread_ofBytes, ← hrest, hbits])
  rw [read, if_neg (by omega), hrun]

/-- **A record whose fields fit is read as it was written**, whatever follows it. -/
theorem read_write_append (hfits : c.Fits) :
    ∃ bytes, c.write = .ok bytes ∧ ∀ tail, read (bytes ++ tail) = .ok c := by
  obtain ⟨bytes, hwrite, hlength, hbits⟩ := c.exists_write
  obtain ⟨w, hput, hwritten⟩ := c.exists_putFields_take 9
  refine ⟨bytes, hwrite, fun tail => ?_⟩
  have hall : Configuration.size ≤ (bytes ++ tail).length := by
    rw [List.length_append, hlength]
    exact Nat.le_add_right ..
  unfold Configuration.size at hall
  refine read_of_conveys (by omega) (conveys_fields hfits (by rw [length_ofBytes]; omega) hput) ?_
  rw [ofBytes_append, hbits, hwritten, List.append_assoc]
  exact List.prefix_append ..

theorem read_write (hfits : c.Fits) {bytes : List UInt8} (hwrite : c.write = .ok bytes) :
    read bytes = .ok c := by
  obtain ⟨bytes', hwrite', hread⟩ := read_write_append hfits
  obtain rfl := Except.ok.inj (hwrite.symm.trans hwrite')
  have hread := hread []
  rwa [List.append_nil] at hread

end Configuration

/-! ### Extra data -/

namespace Parameters

/-- Extra data is found where it was put. -/
theorem extraData?_replaceExtraData (p : Parameters) (d : ExtraData) :
    (p.replaceExtraData d).extraData? d.id = some d := by
  unfold replaceExtraData addExtraData removeExtraData extraData?
  have hnone : (p.extraData.filter fun d' => d'.id != d.id).find? (fun d' => d'.id == d.id) =
      none := by
    rw [List.find?_eq_none]
    intro d' hmem
    simpa using (List.mem_filter.1 hmem).2
  rw [List.find?_append, hnone]
  simp

end Parameters

end DolbyVision
