/-
**How decoding ends.**

Decoding takes an RPU out of its container, checks its tail and reads it.  It ends in one of three
ways: what was given is refused, and the stream is flushed; the RPU has a type that is not known,
and the stream stays as it was; or the RPU is read.  Which of them it is, apart from what is refused
while an RPU is read, depends on what was given and on the configuration only.

Main definitions:

* `DolbyVision.Stream.opened` — the state from which an RPU is read, once its container and its tail
  were accepted;
* `DolbyVision.Stream.rpuType` — the type with which an RPU begins.

Main results:

* `DolbyVision.Stream.opened_congr` — **what is opened depends on the configuration only**;
* `DolbyVision.Stream.decode_cases` — **the three ways in which decoding ends**.
-/

import DolbyVision.Proofs.Bits.Unread
import DolbyVision.Proofs.Rpu.BlockGroup
import DolbyVision.Stream.Decode

set_option relaxedAutoImplicit false
set_option autoImplicit false

namespace DolbyVision.Stream

open Bits

variable {s d : Stream} {data : List UInt8} {strictness : Strictness} {start : DecoderState}

/-! ### Opening an RPU -/

/-- The state from which an RPU is read, once its container and its tail were accepted. -/
def opened (s : Stream) (data : List UInt8) (strictness : Strictness) :
    Except Fault DecoderState :=
  match s.payload data with
  | .error fault => .error fault
  | .ok rpu =>
    match Tail.verify rpu strictness with
    | (.error fault, _) => .error fault
    | (.ok (), notes) => .ok ⟨Reader.ofBytes rpu, notes.toArray⟩

/-- The type with which an RPU begins, in its first six bits. -/
def rpuType (s : Stream) (data : List UInt8) : Option UInt8 :=
  (s.payload data).toOption.bind fun rpu => rpu.head?.map fun b : UInt8 => b >>> 2

theorem payload_congr (h : s.configuration = d.configuration) :
    s.payload data = d.payload data := by
  unfold payload
  rw [h]

theorem opened_congr (h : s.configuration = d.configuration) :
    s.opened data strictness = d.opened data strictness := by
  unfold opened
  rw [payload_congr h]

/-! ### Decoding what was opened -/

/-- What cannot be opened is refused. -/
theorem decode_of_refused {fault : Fault} (hopen : s.opened data strictness = .error fault) :
    (s.decode data strictness).result = .error fault ∧
      (s.decode data strictness).state = s.flush := by
  revert hopen
  unfold opened decode
  cases s.payload data with
  | error _ =>
    intro hopen
    cases hopen
    exact ⟨rfl, rfl⟩
  | ok rpu =>
    dsimp only
    obtain ⟨_ | ⟨⟨⟩⟩, notes⟩ := Tail.verify rpu strictness
    · intro hopen
      cases hopen
      exact ⟨rfl, rfl⟩
    · intro hopen
      cases hopen

/-- What was opened is read. -/
theorem decode_of_opened (hopen : s.opened data strictness = .ok start) :
    (∀ s' state, s.readRpu strictness start = .ok s' state →
      (s.decode data strictness).result = .ok () ∧ (s.decode data strictness).state = s') ∧
    ∀ fault state, s.readRpu strictness start = .error fault state →
      (s.decode data strictness).result = .error fault ∧
        (s.decode data strictness).state = s.flush := by
  revert hopen
  unfold opened decode
  cases s.payload data with
  | error _ =>
    intro hopen
    cases hopen
  | ok rpu =>
    dsimp only
    obtain ⟨_ | ⟨⟨⟩⟩, notes⟩ := Tail.verify rpu strictness
    · intro hopen
      cases hopen
    · intro hopen
      obtain rfl := Except.ok.inj hopen
      dsimp only
      constructor
      · intro s' state hread
        rw [hread]
        exact ⟨rfl, rfl⟩
      · intro fault state hread
        rw [hread]
        exact ⟨rfl, rfl⟩

/-! ### The type of an RPU -/

/-- The upper six bits of a byte. -/
theorem ofBits_take_six (b : UInt8) (rest : List Bool) :
    ofBits ((toBits 8 b.toNat ++ rest).take 6) = (b >>> 2).toNat := by
  have hupper : (toBits 8 b.toNat ++ rest).take 6 = toBits 6 (b.toNat / 2 ^ 2) := by
    simp only [toBits_succ, toBits_zero, List.cons_append, List.take_succ_cons, List.take_zero,
      Nat.testBit_div_two_pow]
  have hlt := b.toNat_lt
  have hshift : (b >>> 2).toNat = b.toNat / 2 ^ 2 := by
    rw [UInt8.toNat_shiftRight, Nat.shiftRight_eq_div_pow]
    rfl
  rw [hupper, ofBits_toBits, hshift, Nat.mod_eq_of_lt (by omega)]

/-- An RPU that ends as it should is not empty. -/
theorem ne_nil_of_verify {rpu : List UInt8} {notes : List Note}
    (h : Tail.verify rpu strictness = (.ok (), notes)) : rpu ≠ [] := by
  rintro rfl
  cases h

/-- The type of an RPU is what is read of it first. -/
theorem type_of_opened (hopen : s.opened data strictness = .ok start) :
    ∃ t r, s.rpuType data = some t ∧ Reader.u8 6 start.reader = .ok t r := by
  unfold opened at hopen
  split at hopen
  · cases hopen
  · case h_2 rpu hpayload =>
    split at hopen
    · cases hopen
    · case h_2 notes htail =>
      obtain rfl := Except.ok.inj hopen
      obtain ⟨b, bytes, rfl⟩ := List.exists_cons_of_ne_nil (ne_nil_of_verify htail)
      obtain ⟨r, hbits, -⟩ := Reader.bits32_eq (Reader.sound_ofBytes (b :: bytes))
        (by decide : 6 ≤ 32) (by simp)
      rw [Reader.unread_ofBytes, ofBytes_cons, ofBits_take_six] at hbits
      refine ⟨b >>> 2, r, by rw [rpuType, hpayload]; rfl, ?_⟩
      unfold Reader.u8
      rw [Run.bind_ok hbits, UInt8.ofNat_toNat]
      rfl

/-- **The three ways in which decoding ends.** -/
theorem decode_cases (s : Stream) (data : List UInt8) (strictness : Strictness) :
    (∃ fault, (s.decode data strictness).result = .error fault ∧
      (s.decode data strictness).state = s.flush) ∨
    ((s.decode data strictness).result = .ok () ∧ s.rpuType data ≠ some knownRpuType ∧
      (s.decode data strictness).state = s) ∨
    ((s.decode data strictness).result = .ok () ∧ s.rpuType data = some knownRpuType ∧
      ∃ start state, s.readBody strictness knownRpuType start =
        .ok (s.decode data strictness).state state) := by
  cases hopen : s.opened data strictness with
  | error fault => exact Or.inl ⟨fault, decode_of_refused hopen⟩
  | ok start =>
    obtain ⟨hread, hfails⟩ := decode_of_opened hopen
    obtain ⟨t, r, htype, hfirst⟩ := type_of_opened hopen
    unfold readRpu at hread hfails
    rw [Run.bind_ok (Decoder.lift_ok hfirst)] at hread hfails
    by_cases ht : t = knownRpuType
    · rw [if_pos ht] at hread hfails
      cases hrun : s.readBody strictness t { start with reader := r } with
      | error fault state => exact Or.inl ⟨fault, hfails _ _ hrun⟩
      | ok s' state =>
        obtain ⟨hresult, hstate⟩ := hread _ _ hrun
        rw [hstate, htype, ← ht]
        exact Or.inr (Or.inr ⟨hresult, rfl, _, state, hrun⟩)
    · rw [if_neg ht] at hread
      obtain ⟨hresult, hstate⟩ := hread _ _ rfl
      exact Or.inr (Or.inl ⟨hresult, by rw [htype]; simpa using ht, hstate⟩)

end DolbyVision.Stream
