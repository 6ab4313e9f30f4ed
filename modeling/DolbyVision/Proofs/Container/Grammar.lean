/-
**The syntax of a container.**

What the reader of containers accepts is described here without it: as a list of bits with fixed
ends, a size and a payload.  A size field may have any number of groups, and the number that it
stands for has no bound; the reader keeps it within a word and stops at the largest one.  A size
that is accepted is far below that, so the reader neither accepts a field that stands for another
number nor refuses one that stands for this one.

Main definitions:

* `DolbyVision.T35.IsSize` — the bits of a size field, and the size that they stand for;
* `DolbyVision.T35.IsContainer` — the bits of a container, and its payload.

Main results:

* `DolbyVision.T35.extendSize_kept` — a group extends a size that is kept within a word as it
  extends the size itself;
* `DolbyVision.T35.recognizes_size`, `recognizes_container` — **the readers accept this syntax**;
* `DolbyVision.T35.IsSize.det` — a size field does not begin with another one;
* `DolbyVision.T35.rpu_ok_iff` — **which byte strings are accepted, and which messages give their
  RPU back**.
-/

import DolbyVision.Proofs.Bits.Recognizes
import DolbyVision.Proofs.Container.T35

set_option relaxedAutoImplicit false
set_option autoImplicit false

namespace DolbyVision.T35

open Bits

/-! ### Sizes -/

/-- The bits of a size field behind groups that stand for a number, and the size that the whole
field stands for.  Each further group follows a set bit, and a cleared bit ends the field. -/
inductive FurtherGroups : Nat → List Bool → Nat → Prop
  | last (value : Nat) : FurtherGroups value [false] value
  | next {value group size : Nat} {bits : List Bool} :
      group < 256 → FurtherGroups ((value + 1) * 256 + group) bits size →
        FurtherGroups value (true :: (toBits 8 group ++ bits)) size

/-- The bits of a size field, and the size that they stand for. -/
def IsSize (bits : List Bool) (size : Nat) : Prop :=
  ∃ first further, first < 256 ∧ bits = toBits 8 first ++ further ∧
    FurtherGroups first further size

/-- A number within a word of 32 bits. -/
def kept (n : Nat) : Nat := min n (2 ^ 32 - 1)

theorem kept_of_le {n : Nat} (h : n ≤ maxSize) : kept n = n := by
  have hmax : maxSize = 65536 := rfl
  unfold kept
  omega

/-- A group extends a size that is kept within a word as it extends the size itself. -/
theorem extendSize_kept (value group : Nat) :
    extendSize (kept value) group = kept ((value + 1) * 256 + group) := by
  have hlimit : (1 <<< 32) - 1 = 2 ^ 32 - 1 := rfl
  simp only [extendSize, kept, hlimit]
  omega

/-- The bits of a group tell which group it is. -/
theorem group_inj {a b : Nat} (ha : a < 256) (hb : b < 256) (h : toBits 8 a = toBits 8 b) :
    a = b := by
  calc a = ofBits (toBits 8 a) := (ofBits_toBits_of_lt ha).symm
    _ = ofBits (toBits 8 b) := by rw [h]
    _ = b := ofBits_toBits_of_lt hb

/-- The end of a size field shows in its bits. -/
theorem FurtherGroups.det {value size size' : Nat} {bits bits' rest rest' : List Bool}
    (h : FurtherGroups value bits size) (h' : FurtherGroups value bits' size')
    (hsame : bits ++ rest = bits' ++ rest') : size = size' := by
  induction h generalizing bits' with
  | last value =>
    cases h' with
    | last => rfl
    | next => simp at hsame
  | next hgroup _ ih =>
    cases h' with
    | last => simp at hsame
    | next hgroup' h' =>
      simp only [List.cons_append, List.append_assoc, List.cons.injEq, true_and] at hsame
      obtain ⟨hfirst, hrest⟩ := List.append_inj hsame (by simp)
      obtain rfl := group_inj hgroup hgroup' hfirst
      exact ih h' hrest

/-- **A size field does not begin with another one.** -/
theorem IsSize.det {size size' : Nat} {bits bits' rest rest' : List Bool} (h : IsSize bits size)
    (h' : IsSize bits' size') (hsame : bits ++ rest = bits' ++ rest') : size = size' := by
  obtain ⟨first, further, hlt, rfl, hfurther⟩ := h
  obtain ⟨first', further', hlt', rfl, hfurther'⟩ := h'
  rw [List.append_assoc, List.append_assoc] at hsame
  obtain ⟨hfirst, hrest⟩ := List.append_inj hsame (by simp)
  obtain rfl := group_inj hlt hlt' hfirst
  exact hfurther.det hfurther' hrest

/-- Groups that were read are groups of a size field. -/
theorem readGroups_sound {groups value size : Nat} {r r' : Reader} (hsound : r.Sound)
    (hrun : readGroups groups (kept value) r = .ok size r') :
    r'.Sound ∧ ∃ bits exact, r.unread = bits ++ r'.unread ∧ FurtherGroups value bits exact ∧
      size = kept exact := by
  induction groups generalizing value r with
  | zero => cases hrun
  | succ groups ih =>
    obtain ⟨more, r₁, hflag, hrun⟩ := Run.ok_of_bind hrun
    obtain ⟨hsound₁, _, hunread, rfl⟩ := recognizes_flag.sound r more r₁ hsound hflag
    cases more with
    | false =>
      cases hrun
      exact ⟨hsound₁, [false], value, hunread, .last value, rfl⟩
    | true =>
      rw [if_pos rfl] at hrun
      obtain ⟨group, r₂, hgroup, hrun⟩ := Run.ok_of_bind hrun
      obtain ⟨hsound₂, _, hunread₂, hlt, rfl⟩ :=
        (recognizes_bits32 (by decide)).sound r₁ group r₂ hsound₁ hgroup
      rw [extendSize_kept] at hrun
      obtain ⟨hsound', bits, exact, hunread', hfurther, hsize⟩ := ih hsound₂ hrun
      refine ⟨hsound', _, exact, ?_, .next hlt hfurther, hsize⟩
      rw [hunread, hunread₂, hunread', List.singleton_append, List.cons_append, List.append_assoc]

/-- Groups of a size field are read, if the reader goes on for long enough. -/
theorem readGroups_complete {value size : Nat} {bits : List Bool}
    (h : FurtherGroups value bits size) {groups : Nat} (hgroups : bits.length ≤ groups)
    (rest : List Bool) : Reads (readGroups groups (kept value)) bits rest (kept size) := by
  induction h generalizing groups with
  | last value =>
    obtain ⟨groups, rfl⟩ := Nat.exists_eq_add_of_le' hgroups
    refine (reads_flag _ false).bind ?_
    exact Reads.pure rest (kept value)
  | @next value group size bits hgroup _ ih =>
    simp only [List.length_cons, List.length_append, length_toBits] at hgroups
    obtain ⟨groups, rfl⟩ := Nat.exists_eq_succ_of_ne_zero (n := groups) (by omega)
    have hlt : group < 2 ^ 8 := hgroup
    have hread := reads_bits32 (bits ++ rest) (show 8 ≤ 32 by decide) group
    rw [Nat.mod_eq_of_lt hlt] at hread
    refine (reads_flag _ true).bind (hread.bind ?_)
    rw [extendSize_kept]
    exact ih (by omega)

/-- **The reader of sizes accepts size fields**, and keeps what they stand for within a word. -/
theorem recognizes_size :
    Recognizes readSize fun bits size => ∃ exact, IsSize bits exact ∧ size = kept exact := by
  have hfurther (value : Nat) (hvalue : value < 2 ^ 8) :
      Recognizes (get >>= fun r : Reader => readGroups (r.bitsLeft + 1) value) fun bits size =>
        ∃ exact, FurtherGroups value bits exact ∧ size = kept exact := by
    have hkept : kept value = value := kept_of_le (by unfold maxSize; omega)
    constructor
    · intro r size r' hsound hrun
      rw [Run.bind_ok Run.get_ok, ← hkept] at hrun
      obtain ⟨hsound', bits, exact, hunread, hgroups, hsize⟩ := readGroups_sound hsound hrun
      exact ⟨hsound', bits, hunread, exact, hgroups, hsize⟩
    · rintro bits _ ⟨exact, hgroups, rfl⟩ rest
      refine Reads.ofReader fun r hsound hunread => ?_
      -- There are fewer groups than bits, and as many bits as the reader has left.
      have hleft : bits.length ≤ r.bitsLeft + 1 := by
        rw [hsound.toLoaded.bitsLeft_eq, hunread, List.length_append]
        omega
      have hread := readGroups_complete hgroups hleft rest r hsound hunread
      rw [hkept] at hread
      rw [Run.bind_ok Run.get_ok]
      exact hread
  refine ((recognizes_bits32 (show 8 ≤ 32 by decide)).bind fun _ value hvalue =>
    hfurther value hvalue.1).congr fun bits size => ?_
  constructor
  · rintro ⟨_, further, value, rfl, ⟨hlt, rfl⟩, exact, hgroups, rfl⟩
    exact ⟨exact, ⟨value, further, hlt, rfl, hgroups⟩, rfl⟩
  · rintro ⟨exact, ⟨first, further, hlt, rfl, hgroups⟩, rfl⟩
    exact ⟨_, further, first, rfl, ⟨hlt, rfl⟩, exact, hgroups, rfl⟩

/-! ### Containers -/

/-- The bits of a container, and its payload: a fixed head, the size of the payload, which is
limited, the payload, and a fixed end. -/
def IsContainer (bits : List Bool) (payload : List UInt8) : Prop :=
  ∃ size, IsSize size payload.length ∧ 6 ≤ payload.length ∧ payload.length ≤ 512 ∧
    bits = toBits 27 0x01be6841 ++ (size ++ (ofBytes payload ++ toBits 17 0x400))

/-- A size that is accepted is the size itself, although it was kept within a word. -/
theorem kept_eq_iff {exact size : Nat} (hsize : size ≤ maxPayload) :
    size = kept exact ↔ exact = size := by
  have hmax : maxPayload = 512 := rfl
  unfold kept
  omega

/-- What ends a container is its fixed end. -/
theorem recognizes_protection (payload : List UInt8) :
    Recognizes (do
      if (← Reader.bits32 17) ≠ protection then
        throw (.malformed .emdfProtection)
      return payload) fun bits p => bits = toBits 17 0x400 ∧ p = payload := by
  refine ((recognizes_bits32 (by decide)).bind fun _ fixed _ =>
    Recognizes.check (fixed ≠ protection) (.malformed .emdfProtection)
      fun _ => .pure payload).congr fun bits p => ?_
  constructor
  · rintro ⟨_, _, fixed, rfl, ⟨-, rfl⟩, hfixed, rfl, rfl⟩
    rw [not_not.1 hfixed, List.append_nil]
    exact ⟨rfl, rfl⟩
  · rintro ⟨rfl, rfl⟩
    exact ⟨_, [], 0x400, (List.append_nil _).symm, ⟨by decide, rfl⟩, not_not.2 rfl, rfl, rfl⟩

/-- Behind a size that is accepted stand as many bytes and the fixed end. -/
theorem recognizes_payload {size : Nat} (hsize : size ≤ maxPayload) :
    Recognizes (do
      if (← get).bitsLeft < (← Checked.mul 64 8 size) then
        throw (.malformed .emdfPayloadOverrun)
      let payload ← Reader.list size (Reader.u8 8)
      if (← Reader.bits32 17) ≠ protection then
        throw (.malformed .emdfProtection)
      return payload) fun bits payload =>
        payload.length = size ∧ bits = ofBytes payload ++ toBits 17 0x400 := by
  have hmul : Checked.mul 64 8 size = .ok (8 * size) := by
    unfold maxPayload at hsize
    exact Checked.mul_of_lt (by omega)
  refine Recognizes.room hmul (((recognizes_bytes size).bind fun _ payload _ =>
    recognizes_protection payload).congr fun bits payload => ?_) fun bits payload => ?_
  · constructor
    · rintro ⟨_, _, payload, rfl, ⟨hlength, rfl⟩, rfl, rfl⟩
      exact ⟨hlength, rfl⟩
    · rintro ⟨hlength, rfl⟩
      exact ⟨_, _, payload, rfl, ⟨hlength, rfl⟩, rfl, rfl⟩
  · rintro ⟨rfl, rfl⟩
    rw [List.length_append, length_ofBytes]
    exact Nat.le_add_right ..

/-- **The reader of containers accepts containers.** -/
theorem recognizes_container : Recognizes container IsContainer := by
  have hsized := recognizes_size.bind fun _ size _ =>
    Recognizes.check (size < minPayload ∨ maxPayload < size) (.malformed .emdfPayloadSize)
      fun haccepted => recognizes_payload (Nat.le_of_not_lt fun hlarge => haccepted (.inr hlarge))
  have hread := (recognizes_bits32 (show 27 ≤ 32 by decide)).bind fun _ fixed _ =>
    Recognizes.check (fixed ≠ head) (.malformed .emdfHeader) fun _ => hsized
  refine hread.congr fun bits payload => ?_
  have hmin : minPayload = 6 := rfl
  have hmax : maxPayload = 512 := rfl
  constructor
  · rintro ⟨_, _, fixed, rfl, ⟨-, rfl⟩, hfixed, size, _, _, rfl, ⟨exact, hexact, rfl⟩, haccepted,
      hlength, rfl⟩
    rw [not_not.1 hfixed]
    rw [← hlength] at haccepted
    have hmost : payload.length ≤ maxPayload := by omega
    rw [(kept_eq_iff hmost).1 hlength] at hexact
    exact ⟨size, hexact, by omega, by omega, rfl⟩
  · rintro ⟨size, hsize, hsix, hmost, rfl⟩
    have hkept : kept payload.length = payload.length := kept_of_le (by unfold maxSize; omega)
    exact ⟨_, _, 0x01be6841, rfl, ⟨by decide, rfl⟩, not_not.2 rfl, size, _, payload.length, rfl,
      ⟨_, hsize, hkept.symm⟩, by omega, rfl, rfl⟩

/-- **Which byte strings are accepted.** -/
theorem rpu_eq_ok_iff_isContainer (bytes payload : List UInt8) :
    rpu bytes = .ok payload ↔
      ∃ bits rest, ofBytes bytes = bits ++ rest ∧ IsContainer bits payload := by
  rw [← recognizes_container.ok_iff]
  unfold rpu
  split
  · case h_1 payload' r hrun =>
    rw [hrun]
    simp [eq_comm]
  · case h_2 fault r hrun =>
    rw [hrun]
    simp

/-! ### Messages -/

/-- A size that is written is a size field, of one group or of two. -/
theorem isSize_sizeBits {size : Nat} (hmax : size ≤ maxSize) : IsSize (sizeBits size) size := by
  have hmax' : size ≤ 65536 := hmax
  unfold sizeBits
  split
  · case isTrue htwo =>
    have hsize : (size / 256 - 1 + 1) * 256 + size % 256 = size := by omega
    have hlast := FurtherGroups.last ((size / 256 - 1 + 1) * 256 + size % 256)
    rw [hsize] at hlast
    refine ⟨size / 256 - 1, _, by omega, rfl, ?_⟩
    exact .next (show size % 256 < 256 by omega) (by rw [hsize]; exact hlast)
  · case isFalse hone =>
    exact ⟨size, _, by omega, rfl, .last size⟩

/-- The container of a message, to the bit: its parts, and what fills it up. -/
theorem exists_ofBytes_container {payload : List UInt8} (hmax : payload.length ≤ maxSize) :
    ∃ size rest, IsSize size payload.length ∧
      ofBytes ((message payload).drop provider.length) =
        toBits 27 head ++ (size ++ (ofBytes payload ++ toBits 17 protection)) ++ rest := by
  obtain ⟨ones, -, hbits⟩ := ofBytes_message payload
  rw [List.append_assoc] at hbits
  exact ⟨_, ones, isSize_sizeBits hmax, (take_eq_of_ofBytes_eq hbits).2⟩

/-- **Which byte strings are accepted, and which messages give their RPU back.**  A byte string is
accepted exactly if a container is at its start, and then it gives the payload of the container,
whatever follows.  An RPU that is not too large is written as a message, and comes back from its
container, whatever follows that, if its size is accepted; otherwise the container is refused. -/
theorem rpu_ok_iff :
    (∀ bytes payload, rpu bytes = .ok payload ↔
      ∃ bits rest, ofBytes bytes = bits ++ rest ∧ IsContainer bits payload) ∧
    ∀ payload : List UInt8,
      (maxSize < payload.length → ∃ fault, wrap payload = .error fault) ∧
      (payload.length ≤ maxSize → ∃ message container,
        wrap payload = .ok message ∧ unwrap message = .ok container ∧
        ∀ behind, if 6 ≤ payload.length ∧ payload.length ≤ 512 then
            rpu (container ++ behind) = .ok payload
          else ∃ fault, rpu (container ++ behind) = .error fault) := by
  refine ⟨rpu_eq_ok_iff_isContainer, fun payload => ⟨fun hlarge => ?_, fun hmax => ?_⟩⟩
  · exact ⟨_, if_pos hlarge⟩
  · obtain ⟨size, rest, hsize, hbits⟩ := exists_ofBytes_container hmax
    refine ⟨_, _, wrap_of_le hmax, unwrap_message payload, fun behind => ?_⟩
    split
    · case isTrue haccepted =>
      rw [rpu_eq_ok_iff_isContainer, ofBytes_append, hbits, List.append_assoc]
      exact ⟨_, _, rfl, size, hsize, haccepted.1, haccepted.2, rfl⟩
    · case isFalse hrefused =>
      cases hrun : rpu ((message payload).drop provider.length ++ behind) with
      | error fault => exact ⟨fault, rfl⟩
      | ok other =>
        obtain ⟨_, rest', hsplit, size', hsize', hmin, hmost, rfl⟩ :=
          (rpu_eq_ok_iff_isContainer _ _).1 hrun
        -- The size that was accepted would be the one that was written.
        rw [ofBytes_append, hbits] at hsplit
        simp only [List.append_assoc] at hsplit
        have hsame := hsize.det hsize' (List.append_inj hsplit (by simp)).2
        exact absurd ⟨hsame ▸ hmin, hsame ▸ hmost⟩ hrefused

/-- As many bytes of zero. -/
def zeros (n : Nat) : List UInt8 := List.replicate n 0

/-- 256 bytes come back from a size of two groups, 513 bytes are written and not read, and 65537
bytes are not written. -/
theorem rpu_ok_iff_zeros :
    (∃ message container, wrap (zeros 256) = .ok message ∧ unwrap message = .ok container ∧
      ∀ behind, rpu (container ++ behind) = .ok (zeros 256)) ∧
    (∃ message container, wrap (zeros 513) = .ok message ∧ unwrap message = .ok container ∧
      ∀ behind, ∃ fault, rpu (container ++ behind) = .error fault) ∧
    ∃ fault, wrap (zeros 65537) = .error fault := by
  have hlength (n : Nat) : (zeros n).length = n := List.length_replicate
  have hread (n : Nat) (hn : n ≤ maxSize) := (rpu_ok_iff.2 (zeros n)).2 (by rwa [hlength])
  simp only [hlength] at hread
  exact ⟨hread 256 (by decide), hread 513 (by decide),
    (rpu_ok_iff.2 (zeros 65537)).1 (by rw [hlength]; decide)⟩

end DolbyVision.T35
