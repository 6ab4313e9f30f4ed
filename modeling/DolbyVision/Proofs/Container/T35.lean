/-
**A T.35 message gives its RPU back, unless it is too large.**

The size of a payload is read back whether it takes one group of bits or two.  A container is read
back if its payload has 6 to 512 bytes.  A message is written for larger payloads as well, and those
are refused by the reader of the container.

Main definitions:

* `DolbyVision.T35.containerBits`, `DolbyVision.T35.message` — what is written.

Main results:

* `DolbyVision.T35.ok_message` — **every message can be written**;
* `DolbyVision.T35.conveys_size` — **the size of a payload is read back**;
* `DolbyVision.T35.rpu_of_message` — **the RPU of a message comes back** if its size is accepted;
* `DolbyVision.T35.rpu_of_large_message` — a message whose RPU is larger than that is refused;
* `DolbyVision.T35.length_message` — how long a message is.
-/

import DolbyVision.Container.T35
import DolbyVision.Proofs.Bits.Conveys

set_option relaxedAutoImplicit false
set_option autoImplicit false

namespace DolbyVision.T35

open Bits

variable {total : Nat} {w w' : Writer}

/-! ### The size of a payload -/

/-- A size of two groups is put together from both. -/
theorem extendSize_eq {size : Nat} (hlow : 0xff < size) (hmax : size ≤ maxSize) :
    extendSize (size / 256 - 1) (size % 256) = size := by
  have hlimit : (1 <<< 32) - 1 = 2 ^ 32 - 1 := rfl
  unfold maxSize at hmax
  simp only [extendSize, hlimit]
  omega

/-- The bits of a size: one group of eight, or two. -/
def sizeBits (size : Nat) : List Bool :=
  if 0xff < size then Field.bits [⟨8, size / 256 - 1⟩, ⟨1, 1⟩, ⟨8, size % 256⟩, ⟨1, 0⟩]
  else Field.bits [⟨8, size⟩, ⟨1, 0⟩]

/-- Every size can be written. -/
theorem appends_putSize (size : Nat) : Appends (fun w => putSize w size) (sizeBits size) := by
  unfold putSize sizeBits
  by_cases htwo : 0xff < size
  · have hupper : Checked.sub (size / 256) 1 = .ok (size / 256 - 1) :=
      Checked.sub_of_le (by omega)
    simp only [if_pos htwo, Checked.bind_ok hupper]
    exact appends_putFields (by simp)
  · simp only [if_neg htwo]
    exact appends_putFields (by simp)

/-- **The size of a payload is read back**, from one group or from two. -/
theorem conveys_size {size : Nat} (hmax : size ≤ maxSize) (hput : putSize w size = .ok w') :
    Conveys total w w' readSize size := by
  have hmax' : size ≤ 65536 := hmax
  have hwritten := (appends_putSize size).written hput
  unfold readSize
  unfold putSize at hput
  by_cases htwo : 0xff < size
  · rw [if_pos htwo] at hput
    obtain ⟨upper, hupper, hput⟩ := Checked.ok_of_bind hput
    obtain ⟨-, rfl⟩ := Checked.sub_eq_ok hupper
    refine Conveys.ofFits ⟨_, hwritten.symm⟩ fun hfits => ?_
    have hlength : w'.written.length = w.written.length + 18 := by
      rw [hwritten, sizeBits, if_pos htwo, List.length_append, Field.length_bits]
      rfl
    have hhigh : (size / 256 - 1) % 2 ^ 8 = size / 256 - 1 := Nat.mod_eq_of_lt (by omega)
    have hlow : size % 256 % 2 ^ 8 = size % 256 := Nat.mod_mod ..
    obtain ⟨w₁, hfirst, hput⟩ := Checked.ok_of_bind hput
    have hfirst : w.put 8 (size / 256 - 1) = .ok w₁ := hfirst
    refine (conveys_bits32 (by decide) hfirst).bind (Conveys.bindGet fun r hr => ?_)
    -- The reader goes on as long as bits are left, and one is.
    obtain ⟨left, hleft⟩ : ∃ left, r.bitsLeft = left + 1 := by
      rw [(Writer.written_of_put hfirst).2, List.length_append, length_toBits] at hr
      exact ⟨r.bitsLeft - 1, by omega⟩
    rw [hhigh, hleft]
    refine Conveys.bindField hput (fun _ => conveys_flag (b := true)) fun _ hput => ?_
    refine Conveys.bindField hput (fun _ => conveys_bits32 (by decide)) fun _ hput => ?_
    rw [hlow, extendSize_eq htwo hmax]
    refine Conveys.bindField hput (fun _ => conveys_flag (b := false)) fun _ hput => ?_
    obtain rfl := Except.ok.inj hput
    exact Conveys.pure size
  · rw [if_neg htwo] at hput
    have hone : size % 2 ^ 8 = size := Nat.mod_eq_of_lt (by omega)
    obtain ⟨w₁, hfirst, hput⟩ := Checked.ok_of_bind hput
    have hfirst : w.put 8 size = .ok w₁ := hfirst
    refine (conveys_bits32 (by decide) hfirst).bind (Conveys.bindGet fun r _ => ?_)
    rw [hone]
    refine Conveys.bindField hput (fun _ => conveys_flag (b := false)) fun _ hput => ?_
    obtain rfl := Except.ok.inj hput
    exact Conveys.pure size

/-! ### Containers -/

/-- The bytes of a payload are read back, however they were written. -/
theorem conveys_payload {payload : List UInt8} (hput : w.putBytes payload = .ok w') :
    Conveys total w w' (Reader.list payload.length (Reader.u8 8)) payload := by
  obtain ⟨v, heach, hwritten⟩ := appends_putEach payload w
  have hconveys : Conveys total w v (Reader.list payload.length (Reader.u8 8))
      (payload.map id) := by
    refine Conveys.list (fun b _ w w' hb => ?_) heach
    exact (conveys_u8 (by decide) hb).congr (lower8_eight b)
  refine (hconveys.congr (List.map_id payload)).congrWritten ?_
  rw [hwritten, (appends_putBytes payload).written hput]

/-- A container up to its padding. -/
def putContainer (w : Writer) (rpu : List UInt8) : Except Fault Writer := do
  let w ← w.put 27 head
  let w ← putSize w rpu.length
  let w ← w.putBytes rpu
  w.put 17 protection

/-- The bits of a container. -/
def containerBits (rpu : List UInt8) : List Bool :=
  toBits 27 head ++ (sizeBits rpu.length ++ (ofBytes rpu ++ toBits 17 protection))

/-- **Every container can be written**, also one that is not read back. -/
theorem appends_putContainer (rpu : List UInt8) :
    Appends (fun w => putContainer w rpu) (containerBits rpu) :=
  (appends_put (by decide) head).bind ((appends_putSize rpu.length).bind
    ((appends_putBytes rpu).bind (appends_put (by decide) protection)))

/-- **A container is read back** if the size of its payload is accepted. -/
theorem conveys_container {rpu : List UInt8} (hmin : minPayload ≤ rpu.length)
    (hmax : rpu.length ≤ maxPayload) (hput : putContainer w rpu = .ok w') :
    Conveys total w w' container rpu := by
  have hsize : rpu.length ≤ maxSize := le_trans hmax (by decide)
  have hmul : Checked.mul 64 8 rpu.length = .ok (8 * rpu.length) := by
    unfold maxPayload at hmax
    exact Checked.mul_of_lt (by omega)
  refine Conveys.ofFits ⟨_, ((appends_putContainer rpu).written hput).symm⟩ fun hfits => ?_
  obtain ⟨w₁, hhead, hput⟩ := Checked.ok_of_bind hput
  obtain ⟨w₂, hcount, hput⟩ := Checked.ok_of_bind hput
  obtain ⟨w₃, hpayload, hend⟩ := Checked.ok_of_bind hput
  have hlength : w'.written.length = w₂.written.length + 8 * rpu.length + 17 := by
    rw [(Writer.written_of_put hend).2, (appends_putBytes rpu).written hpayload]
    simp only [List.length_append, length_toBits, length_ofBytes]
  unfold container
  refine (conveys_bits32 (by decide) hhead).bind (Conveys.guard (by decide) ?_)
  refine (conveys_size hsize hcount).bind (Conveys.guard (by omega) ?_)
  refine Conveys.bindGet fun r hr => (Conveys.ofExcept hmul).bind (Conveys.guard (by omega) ?_)
  refine (conveys_payload hpayload).bind ?_
  refine (conveys_bits32 (by decide) hend).bind (Conveys.guard (by decide) ?_)
  exact Conveys.pure rpu

/-- A container is refused if the size of its payload is not accepted. -/
theorem refuses_container {rpu : List UInt8} {w₁ : Writer} (hlarge : maxPayload < rpu.length)
    (hmax : rpu.length ≤ maxSize) (hhead : w.put 27 head = .ok w₁)
    (hcount : putSize w₁ rpu.length = .ok w') :
    Refuses total w w' container (.malformed .emdfPayloadSize) := by
  unfold container
  refine Refuses.bind (conveys_bits32 (by decide) hhead) ?_
  rw [if_neg (by decide)]
  refine Refuses.bind (conveys_size hmax hcount) ?_
  exact Refuses.guard (Or.inr hlarge) (List.prefix_refl _)

/-! ### Messages -/

/-- A message is padded up to the next boundary. -/
theorem exists_padWithOnes (w : Writer) : ∃ w', padWithOnes w = .ok w' ∧
    ∃ ones, ones.length = padding w.written.length ∧ w'.written = w.written ++ ones := by
  have hlt := padding_lt w.written.length
  have hpadding : (8 - w.bitsWritten % 8) % 8 = padding w.written.length := by
    rw [← Writer.length_written]
    rfl
  have hpos : 1 ≤ 1 <<< padding w.written.length := by
    rw [Nat.one_shiftLeft]
    exact Nat.one_le_two_pow
  obtain ⟨w', hput, hwritten⟩ := appends_put (show padding w.written.length ≤ 64 by omega)
    (1 <<< padding w.written.length - 1) w
  refine ⟨w', ?_, _, length_toBits .., hwritten⟩
  unfold padWithOnes
  rw [Checked.bind_ok (Checked.sub_of_le (by omega))]
  dsimp only
  rw [hpadding, Checked.bind_ok (Checked.bit_of_lt (by omega)),
    Checked.bind_ok (Checked.sub_of_le hpos)]
  exact hput

/-- The message of an RPU. -/
def message (rpu : List UInt8) : List UInt8 :=
  (putMessage Writer.empty rpu >>= Writer.finish).toOption.getD []

/-- **Every message can be written**: the bytes that name the provider, the container, and set bits
up to the next boundary. -/
theorem ok_message (rpu : List UInt8) :
    ∃ v w, Writer.empty.putBytes provider = .ok v ∧ putContainer v rpu = .ok w ∧
      (putMessage Writer.empty rpu >>= Writer.finish) = .ok (message rpu) ∧
      ∃ ones, ones.length = padding w.written.length ∧
        ofBytes (message rpu) = w.written ++ ones := by
  obtain ⟨v, hprovider, -⟩ := appends_putBytes provider Writer.empty
  obtain ⟨w, hcontainer, -⟩ := appends_putContainer rpu v
  obtain ⟨w', hpad, ones, hones, hwritten⟩ := exists_padWithOnes w
  obtain ⟨bytes, hfinish, hbytes⟩ := w'.exists_finish
  have hput : putMessage Writer.empty rpu = .ok w' := by
    obtain ⟨w₁, hhead, hrest⟩ := Checked.ok_of_bind hcontainer
    obtain ⟨w₂, hcount, hrest⟩ := Checked.ok_of_bind hrest
    obtain ⟨w₃, hpayload, hend⟩ := Checked.ok_of_bind hrest
    rw [putMessage, Checked.bind_ok hprovider, Checked.bind_ok hhead, Checked.bind_ok hcount,
      Checked.bind_ok hpayload, Checked.bind_ok hend, hpad]
  have hok : (putMessage Writer.empty rpu >>= Writer.finish) = .ok bytes :=
    (Checked.bind_ok hput).trans hfinish
  have hmessage : message rpu = bytes := by
    rw [message, hok]
    rfl
  -- What is padded ends at a boundary, so nothing is added to it.
  have hwhole : padding w'.written.length = 0 := by
    have hdvd := dvd_add_padding w.written.length
    rw [hwritten, List.length_append, hones]
    unfold padding at hdvd ⊢
    omega
  rw [hwhole, List.replicate_zero, List.append_nil, hwritten] at hbytes
  refine ⟨v, w, hprovider, hcontainer, by rw [hmessage, hok], ones, hones, ?_⟩
  rw [hmessage, hbytes]

/-- The bits of a message. -/
theorem ofBytes_message (rpu : List UInt8) :
    ∃ ones, ones.length = padding (ofBytes provider ++ containerBits rpu).length ∧
      ofBytes (message rpu) = ofBytes provider ++ containerBits rpu ++ ones := by
  obtain ⟨v, w, hprovider, hcontainer, -, ones, hones, hbits⟩ := ok_message rpu
  have hwritten : w.written = ofBytes provider ++ containerBits rpu := by
    rw [(appends_putContainer rpu).written hcontainer,
      (appends_putBytes provider).written hprovider, Writer.written_empty, List.nil_append]
  rw [hwritten] at hones hbits
  exact ⟨ones, hones, hbits⟩

/-- A container takes 44 bits besides its payload and the size of that. -/
theorem length_containerBits (rpu : List UInt8) :
    (containerBits rpu).length = 8 * rpu.length + if 0xff < rpu.length then 62 else 53 := by
  simp only [containerBits, List.length_append, length_toBits, length_ofBytes]
  unfold sizeBits
  split <;> rw [Field.length_bits]
  · change 27 + (18 + _) = _
    omega
  · change 27 + (9 + _) = _
    omega

/-- **A message is 14 bytes longer than its RPU**, or 15 if the size takes two groups. -/
theorem length_message (rpu : List UInt8) :
    (message rpu).length = rpu.length + if 0xff < rpu.length then 15 else 14 := by
  obtain ⟨ones, hones, hbits⟩ := ofBytes_message rpu
  have hprovider : (ofBytes provider).length = 56 := rfl
  have hlength := congrArg List.length hbits
  rw [length_ofBytes, List.length_append, hones, List.length_append, hprovider,
    length_containerBits] at hlength
  unfold padding at hlength
  split at hlength
  · case isTrue htwo =>
    rw [if_pos htwo]
    omega
  · case isFalse hone =>
    rw [if_neg hone]
    omega

/-- The container of a message is what follows the bytes that name the provider. -/
theorem unwrap_message (rpu : List UInt8) :
    unwrap (message rpu) = .ok ((message rpu).drop provider.length) := by
  obtain ⟨ones, -, hbits⟩ := ofBytes_message rpu
  rw [List.append_assoc] at hbits
  have htake := (take_eq_of_ofBytes_eq hbits).1
  have hlength : ¬ (message rpu).length < provider.length := by
    have h := congrArg List.length htake
    rw [List.length_take] at h
    omega
  rw [unwrap, if_neg hlength, if_pos htake]

/-- The bits in front of which the reader of a container starts. -/
theorem unread_message {rpu : List UInt8} {v w : Writer} {bits : List Bool}
    (hprovider : Writer.empty.putBytes provider = .ok v) (hbits : w.written = v.written ++ bits)
    (hstart : w.written <+: ofBytes (message rpu)) :
    ∃ rest, (Reader.ofBytes ((message rpu).drop provider.length)).unread = bits ++ rest ∧
      w.written.length + rest.length = (ofBytes (message rpu)).length := by
  obtain ⟨rest, hrest⟩ := hstart
  have hsplit : ofBytes (message rpu) = ofBytes provider ++ (bits ++ rest) := by
    rw [← hrest, hbits, (appends_putBytes provider).written hprovider, Writer.written_empty,
      List.nil_append, List.append_assoc]
  refine ⟨rest, ?_, by rw [← hrest, List.length_append]⟩
  rw [Reader.unread_ofBytes]
  exact (take_eq_of_ofBytes_eq hsplit).2

/-- **The RPU of a message comes back** if its size is accepted. -/
theorem rpu_of_message {bytes : List UInt8} (hmin : minPayload ≤ bytes.length)
    (hmax : bytes.length ≤ maxPayload) :
    rpu ((message bytes).drop provider.length) = .ok bytes := by
  obtain ⟨v, w, hprovider, hcontainer, -, ones, -, hones⟩ := ok_message bytes
  have hconveys : Conveys (ofBytes (message bytes)).length v w container bytes :=
    conveys_container hmin hmax hcontainer
  obtain ⟨bits, hbits, hreads⟩ := hconveys
  obtain ⟨rest, hunread, hlength⟩ := unread_message hprovider hbits ⟨ones, hones.symm⟩
  let r := Reader.ofBytes ((message bytes).drop provider.length)
  obtain ⟨r', hrun, -⟩ := hreads rest hlength r (Reader.sound_ofBytes _) hunread
  rw [rpu, hrun]

/-- **A message whose RPU is larger than that is refused.** -/
theorem rpu_of_large_message {bytes : List UInt8} (hlarge : maxPayload < bytes.length)
    (hmax : bytes.length ≤ maxSize) :
    rpu ((message bytes).drop provider.length) = .error (.malformed .emdfPayloadSize) := by
  obtain ⟨v, w, hprovider, hcontainer, -, ones, -, hones⟩ := ok_message bytes
  obtain ⟨w₁, hhead, hput⟩ := Checked.ok_of_bind hcontainer
  obtain ⟨w₂, hcount, hput⟩ := Checked.ok_of_bind hput
  obtain ⟨w₃, hpayload, hend⟩ := Checked.ok_of_bind hput
  have hrefuses : Refuses (ofBytes (message bytes)).length v w₂ container
      (.malformed .emdfPayloadSize) := refuses_container hlarge hmax hhead hcount
  -- The size alone is refused, so the payload behind it need not be looked at.
  have hstart : w₂.written <+: ofBytes (message bytes) := by
    rw [hones, (Writer.written_of_put hend).2, (appends_putBytes bytes).written hpayload,
      List.append_assoc, List.append_assoc]
    exact List.prefix_append ..
  obtain ⟨bits, hbits, hfails⟩ := hrefuses
  obtain ⟨rest, hunread, hlength⟩ := unread_message hprovider hbits hstart
  let r := Reader.ofBytes ((message bytes).drop provider.length)
  obtain ⟨r', hrun⟩ := hfails rest hlength r (Reader.sound_ofBytes _) hunread
  rw [rpu, hrun]

/-- What is not too large is written as a message. -/
theorem wrap_of_le {bytes : List UInt8} (hsize : bytes.length ≤ maxSize) :
    wrap bytes = .ok (message bytes) := by
  obtain ⟨v, w, -, -, hok, -⟩ := ok_message bytes
  rw [wrap, if_neg (Nat.not_lt.2 hsize)]
  exact hok

/-- What is written as a message is the message. -/
theorem wrap_eq_ok {bytes out : List UInt8} (h : wrap bytes = .ok out) :
    bytes.length ≤ maxSize ∧ out = message bytes := by
  by_cases hsize : bytes.length ≤ maxSize
  · rw [wrap_of_le hsize] at h
    exact ⟨hsize, (Except.ok.inj h).symm⟩
  · rw [wrap, if_pos (Nat.lt_of_not_le hsize)] at h
    cases h

end DolbyVision.T35
