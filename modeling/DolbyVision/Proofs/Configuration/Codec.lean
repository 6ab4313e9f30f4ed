/-
**Records and their bytes.**

The fields of a record are 38 bits, and each string of 38 bits spells the fields of a record that
fit.  So reading and writing undo each other on these bits: a record that fits is read as it was
written, and what is written of a record that was read begins with the bits from which it was read.
All later bits of a written record are zero.

Four bytes have only the first 32 of the 38 bits.  A record is read from them as if the others were
zero.

Main definitions:

* `DolbyVision.Configuration.spelling` — the bits of the fields of a record.

Main results:

* `DolbyVision.Configuration.exists_spelling` — **each string of 38 bits spells a record**;
* `DolbyVision.Configuration.read_of_length` — **at least four bytes are read**, and what is read
  spells their first bits;
* `DolbyVision.Configuration.read_and_write` — **reading and writing undo each other**.
-/

import DolbyVision.Proofs.Configuration.Record

set_option relaxedAutoImplicit false
set_option autoImplicit false

namespace DolbyVision

open Bits

/-- The code of the compression with a given code of two bits. -/
theorem Compression.code_ofCode {code : Nat} (h : code < 4) : (ofCode code).code = code := by
  match code, h with
  | 0, _ | 1, _ | 2, _ | 3, _ => rfl

namespace Configuration

variable {c : Configuration} {bytes : List UInt8} {bits : List Bool}

/-! ### Spellings -/

/-- The bits of the fields of a record. -/
def spelling (c : Configuration) : List Bool := Field.bits (c.fields.take 9)

theorem length_spelling (c : Configuration) : c.spelling.length = 38 := by
  rw [spelling, Field.length_bits]
  rfl

/-- The fields that all records have stand in front of the others. -/
theorem spelling_eq (c : Configuration) :
    c.spelling = Field.bits (c.fields.take 7) ++
      (toBits 4 c.compatibilityId.toNat ++ toBits 2 c.compression.code) := by
  simp [spelling, fields]

/-! ### Every string is a spelling -/

/-- The first bits of a string are a field of a byte. -/
theorem exists_byteField (bits : List Bool) (width : Nat) (h8 : width ≤ 8)
    (hlength : width ≤ bits.length) :
    ∃ (v : UInt8) (rest : List Bool), v.toNat < 2 ^ width ∧ bits = toBits width v.toNat ++ rest ∧
      width + rest.length = bits.length := by
  have htaken : (bits.take width).length = width := by
    rw [List.length_take, Nat.min_eq_left hlength]
  have hlt := ofBits_lt (bits.take width)
  rw [htaken] at hlt
  have hpow : 2 ^ width ≤ 2 ^ 8 := Nat.pow_le_pow_right (by decide) h8
  have hbyte : (UInt8.ofNat (ofBits (bits.take width))).toNat = ofBits (bits.take width) := by
    rw [UInt8.toNat_ofNat', Nat.mod_eq_of_lt (by omega)]
  have hspelled := toBits_ofBits (bits.take width)
  rw [htaken] at hspelled
  refine ⟨UInt8.ofNat (ofBits (bits.take width)), bits.drop width, ?_, ?_, ?_⟩
  · rwa [hbyte]
  · rw [hbyte, hspelled, List.take_append_drop]
  · rw [List.length_drop]
    omega

/-- The first bit of a string is a flag. -/
theorem exists_flagField (bits : List Bool) (hlength : 1 ≤ bits.length) :
    ∃ (b : Bool) (rest : List Bool), bits = toBits 1 b.toNat ++ rest ∧
      1 + rest.length = bits.length := by
  obtain ⟨b, rest, rfl⟩ := List.exists_cons_of_length_pos hlength
  refine ⟨b, rest, ?_, Nat.add_comm ..⟩
  cases b <;> rfl

/-- Each string of 32 bits spells the fields that all records have. -/
theorem exists_truncated (hlength : bits.length = 32) :
    ∃ c : Configuration, c.Fits ∧ c.truncated = c ∧ Field.bits (c.fields.take 7) = bits := by
  obtain ⟨major, bits₁, -, rfl, h₁⟩ := exists_byteField bits 8 (by decide) (by omega)
  obtain ⟨minor, bits₂, -, rfl, h₂⟩ := exists_byteField bits₁ 8 (by decide) (by omega)
  obtain ⟨profile, bits₃, hprofile, rfl, h₃⟩ := exists_byteField bits₂ 7 (by decide) (by omega)
  obtain ⟨level, bits₄, hlevel, rfl, h₄⟩ := exists_byteField bits₃ 6 (by decide) (by omega)
  obtain ⟨rpu, bits₅, rfl, h₅⟩ := exists_flagField bits₄ (by omega)
  obtain ⟨enhancement, bits₆, rfl, h₆⟩ := exists_flagField bits₅ (by omega)
  obtain ⟨base, bits₇, rfl, h₇⟩ := exists_flagField bits₆ (by omega)
  have hnil : bits₇ = [] := List.length_eq_zero_iff.1 (by omega)
  subst hnil
  refine ⟨⟨major, minor, profile, level, rpu, enhancement, base, 0, .none⟩, ?_, rfl, ?_⟩
  · exact { profile := hprofile, level := hlevel, compatibilityId := Nat.two_pow_pos 4 }
  · simp [fields]

/-- **Each string of 38 bits spells a record** whose fields fit. -/
theorem exists_spelling (hlength : bits.length = 38) :
    ∃ c : Configuration, c.Fits ∧ c.spelling = bits := by
  have hfirst : (bits.take 32).length = 32 := by rw [List.length_take]; omega
  obtain ⟨c, hfits, -, hrequired⟩ := exists_truncated hfirst
  have hlast : (bits.drop 32).length = 6 := by rw [List.length_drop]; omega
  obtain ⟨id, bits₁, hid, hbits, h₁⟩ :=
    exists_byteField (bits.drop 32) 4 (by decide) (by omega)
  obtain ⟨code, bits₂, hcode, hbits₁, h₂⟩ := exists_byteField bits₁ 2 (by decide) (by omega)
  have hnil : bits₂ = [] := List.length_eq_zero_iff.1 (by omega)
  have hcompression := Compression.code_ofCode hcode
  refine ⟨{ c with compatibilityId := id, compression := .ofCode code.toNat }, ?_, ?_⟩
  · exact { profile := hfits.profile, level := hfits.level, compatibilityId := hid }
  · rw [← List.take_append_drop 32 bits, ← hrequired, hbits, hbits₁, hnil, List.append_nil,
      spelling_eq, hcompression]
    rfl

/-! ### Reading -/

/-- **At least four bytes are read**, and the fields of what is read spell the first bits of them;
if there are no others, bits that are missing count as zero. -/
theorem read_of_length (hlength : 4 ≤ bytes.length) :
    ∃ c : Configuration, read bytes = .ok c ∧
      c.spelling = (ofBytes bytes ++ List.replicate 8 false).take 38 := by
  have hbits := length_ofBytes bytes
  by_cases hshort : bytes.length = 4
  · have hwhole : (ofBytes bytes).length = 32 := by omega
    obtain ⟨c, hfits, htruncated, hrequired⟩ := exists_truncated hwhole
    obtain ⟨w, hput, hwritten⟩ := c.exists_putFields_take 7
    have hread := conveys_truncated hfits hwhole hput
    rw [htruncated] at hread
    refine ⟨c, read_of_conveys hlength hread ⟨[], ?_⟩, ?_⟩
    · rw [List.append_nil, hwritten, hrequired]
    · have hid : c.compatibilityId = 0 := by rw [← htruncated]; rfl
      have hcompression : c.compression = .none := by rw [← htruncated]; rfl
      rw [spelling_eq, hrequired, hid, hcompression, List.take_append, hbits, hshort,
        List.take_of_length_le (by omega)]
      rfl
  · have hfirst : ((ofBytes bytes).take 38).length = 38 := by rw [List.length_take]; omega
    obtain ⟨c, hfits, hspelling⟩ := exists_spelling hfirst
    obtain ⟨w, hput, hwritten⟩ := c.exists_putFields_take 9
    refine ⟨c, read_of_conveys hlength (conveys_fields hfits (by omega) hput) ?_, ?_⟩
    · rw [hwritten, ← spelling, hspelling]
      exact List.take_prefix ..
    · rw [hspelling, List.take_append_of_le_length (by omega)]

/-- Nothing is read from fewer than four bytes. -/
theorem four_le_length_of_read (hread : read bytes = .ok c) : 4 ≤ bytes.length := by
  by_contra hshort
  rw [read, if_pos (by omega)] at hread
  cases hread

/-- What is read spells the bits from which it was read. -/
theorem spelling_of_read (hread : read bytes = .ok c) :
    c.spelling = (ofBytes bytes ++ List.replicate 8 false).take 38 := by
  obtain ⟨c', hread', hspelling⟩ := read_of_length (four_le_length_of_read hread)
  rw [hread] at hread'
  rwa [Except.ok.inj hread']

/-- Records are written alike if their fields are spelled alike. -/
theorem write_congr {c' : Configuration} (h : c.spelling = c'.spelling) : c.write = c'.write := by
  obtain ⟨bytes, hwrite, -, hbits⟩ := c.exists_write
  obtain ⟨bytes', hwrite', -, hbits'⟩ := c'.exists_write
  have hsame : bytes = bytes' := by
    refine ofBytes_injective ?_
    rw [hbits, hbits', ← spelling, ← spelling, h]
  rw [hwrite, hwrite', hsame]

/-- **Reading and writing undo each other.**  Every record can be written, and one whose fields fit
is read as it was written, whatever follows it.  Exactly the strings of at least four bytes are
read, and what is written of the record has their first 38 bits, with zeros for those that are
missing, and only zeros behind them.  So a record that is written, read and written again has the
same bytes, even if its fields do not fit. -/
theorem read_and_write :
    (∀ c : Configuration, c.profile.toNat < 128 → c.level.toNat < 64 →
      c.compatibilityId.toNat < 16 →
        ∃ bytes, c.write = .ok bytes ∧ ∀ tail, read (bytes ++ tail) = .ok c) ∧
    (∀ bytes, (∃ c, read bytes = .ok c) ↔ 4 ≤ bytes.length) ∧
    (∀ bytes c, read bytes = .ok c → ∃ bytes', c.write = .ok bytes' ∧ ofBytes bytes' =
      (ofBytes bytes ++ List.replicate 8 false).take 38 ++ List.replicate 154 false) ∧
    ∀ c : Configuration, ∃ bytes c', c.write = .ok bytes ∧ read bytes = .ok c' ∧
      c'.write = .ok bytes := by
  refine ⟨fun c hprofile hlevel hid => read_write_append ⟨hprofile, hlevel, hid⟩,
    fun bytes => ⟨fun ⟨c, hread⟩ => four_le_length_of_read hread, fun hlength => ?_⟩,
    fun bytes c hread => ?_, fun c => ?_⟩
  · obtain ⟨c, hread, -⟩ := read_of_length hlength
    exact ⟨c, hread⟩
  · obtain ⟨bytes', hwrite, -, hbits⟩ := c.exists_write
    refine ⟨bytes', hwrite, ?_⟩
    rw [hbits, ← spelling, spelling_of_read hread]
  · obtain ⟨bytes, hwrite, hsize, hbits⟩ := c.exists_write
    have hlength : 4 ≤ bytes.length := by rw [hsize]; decide
    obtain ⟨c', hread, hspelling⟩ := read_of_length hlength
    refine ⟨bytes, c', hwrite, hread, ?_⟩
    rw [← hwrite]
    refine write_congr ?_
    rw [hspelling, hbits, ← spelling, List.append_assoc, List.take_left' (length_spelling c)]

/-- A record with all its fields, and a longer string that begins with it. -/
theorem read_and_write_extended :
    ∃ bytes, write ⟨1, 0, 10, 13, true, false, true, 4, .extended⟩ = .ok bytes ∧
      read (bytes ++ [0xff, 0x00, 0xff]) =
        .ok ⟨1, 0, 10, 13, true, false, true, 4, .extended⟩ := by
  obtain ⟨bytes, hwrite, hread⟩ := read_and_write.1 ⟨1, 0, 10, 13, true, false, true, 4, .extended⟩
    (by decide) (by decide) (by decide)
  exact ⟨bytes, hwrite, hread [0xff, 0x00, 0xff]⟩

end Configuration

end DolbyVision
