/-
**Writing bits into bytes.**

A `Writer` holds the bytes that are complete and the bits of the byte that is not.  A field of up
to 64 bits is written from its most significant bit on, at any position, as many bits at a time as
the incomplete byte has room for.  A writer refuses nothing: a write fails only where a width, a
shift or a code leaves its word.

Main definitions:

* `DolbyVision.Bits.Writer` — complete bytes and the bits in front of the next boundary;
* `DolbyVision.Bits.Writer.empty`, `withCapacity`, `reusing` — writers that have written nothing;
* `DolbyVision.Bits.Writer.written` — everything written so far, as a list of bits;
* `DolbyVision.Bits.Writer.share`, `fill` — bits for the incomplete byte;
* `DolbyVision.Bits.Writer.put`, `putSigned`, `putFlag`, `putBytes` — fields of a fixed width;
* `DolbyVision.Bits.Writer.putUnsignedCode`, `putSignedCode` — Exp-Golomb codes;
* `DolbyVision.Bits.Writer.realign`, `finish` — padding with zero bits.
-/

import DolbyVision.Bits.Basic

set_option relaxedAutoImplicit false
set_option autoImplicit false

namespace DolbyVision.Bits

/-- The complete bytes and the bits, fewer than eight, of the byte that is being filled. -/
structure Writer where
  /-- The complete bytes. -/
  bytes : Array UInt8 := #[]
  /-- The bits of the incomplete byte, as a number. -/
  tail : Nat := 0
  /-- The number of bits of the incomplete byte. -/
  filled : Nat := 0
  filled_lt : filled < 8 := by decide
  tail_lt : tail < 1 <<< filled := by decide

namespace Writer

/-- A writer that has written nothing. -/
def empty : Writer := {}

/-- A writer that has written nothing, with room for a number of bytes. -/
def withCapacity (capacity : Nat) : Writer where
  bytes := Array.emptyWithCapacity capacity

/-- A writer that has written nothing, in the place of an array of bytes. -/
def reusing (buffer : Array UInt8) : Writer where
  bytes := buffer.shrink 0

/-- The number of bits written so far. -/
def bitsWritten (w : Writer) : Nat :=
  8 * w.bytes.size + w.filled

/-- Whether the next bit starts a byte. -/
def isAligned (w : Writer) : Bool :=
  w.filled == 0

/-- The bits written so far. -/
def written (w : Writer) : List Bool :=
  ofBytes w.bytes.toList ++ toBits w.filled w.tail

/-- Bits that are shifted in below others make room for themselves. -/
theorem shiftIn_lt {tail filled take value : Nat} (htail : tail < 1 <<< filled) {mask : UInt64}
    (hmask : mask.toNat = (1 <<< take) - 1) :
    tail <<< take ||| value &&& mask.toNat < 1 <<< (filled + take) := by
  have hpos := Nat.two_pow_pos take
  have hchunk : value &&& mask.toNat < 2 ^ take := by
    have hle : value &&& mask.toNat ≤ mask.toNat := Nat.and_le_right
    rw [hmask, Nat.one_shiftLeft] at hle ⊢
    omega
  rw [Nat.one_shiftLeft] at htail ⊢
  have hshift : tail <<< take < 2 ^ (filled + take) := by
    rw [Nat.shiftLeft_eq, Nat.pow_add]
    exact Nat.mul_lt_mul_of_pos_right htail hpos
  exact Nat.or_lt_two_pow hshift
    (Nat.lt_of_lt_of_le hchunk (Nat.pow_le_pow_right (by decide) (Nat.le_add_left ..)))

/-- How many bits of a field of `width` bits the incomplete byte takes, and how many are left. -/
def share (w : Writer) (width : Nat) : Except Fault (Nat × Nat) := do
  let room ← Checked.sub 8 w.filled
  let take ← Checked.shiftAmount 32 (min room width)
  let rest ← Checked.shiftAmount 64 (← Checked.sub width take)
  return (take, rest)

/-- The incomplete byte takes as many bits as it has room for, and that is one or more. -/
theorem share_eq_ok {w : Writer} {width take rest : Nat} (h : w.share width = .ok (take, rest)) :
    take = min (8 - w.filled) width ∧ rest = width - take := by
  obtain ⟨room, hroom, h⟩ := Checked.ok_of_bind h
  obtain ⟨-, rfl⟩ := Checked.sub_eq_ok hroom
  obtain ⟨take', htake, h⟩ := Checked.ok_of_bind h
  obtain ⟨-, rfl⟩ := Checked.shiftAmount_eq_ok htake
  obtain ⟨left, hleft, h⟩ := Checked.ok_of_bind h
  obtain ⟨-, rfl⟩ := Checked.sub_eq_ok hleft
  obtain ⟨rest', hrest, h⟩ := Checked.ok_of_bind h
  obtain ⟨-, rfl⟩ := Checked.shiftAmount_eq_ok hrest
  obtain ⟨rfl, rfl⟩ := Prod.mk.inj (Except.ok.inj h)
  exact ⟨rfl, rfl⟩

theorem rest_lt {w : Writer} {width take rest : Nat} (hpos : width ≠ 0)
    (h : w.share width = .ok (take, rest)) : rest < width := by
  have hfilled := w.filled_lt
  have hshare := share_eq_ok h
  omega

/-- Writes the lowest `take` bits of a number into the incomplete byte, which has room for them.  A
byte that is complete is moved to the others. -/
def fill (w : Writer) (take value : Nat) : Except Fault Writer :=
  match hmask : lowerMask take, hfilled : Checked.add 32 w.filled take with
  | .error fault, _ => .error fault
  | _, .error fault => .error fault
  | .ok mask, .ok filled =>
    let tail := w.tail <<< take ||| value &&& mask.toNat
    if h : filled < 8 then
      .ok {
        bytes := w.bytes
        tail := tail
        filled := filled
        filled_lt := h
        tail_lt := by
          rw [(Checked.within_eq_ok hfilled).2]
          exact shiftIn_lt w.tail_lt (toNat_lowerMask hmask) }
    else
      .ok { bytes := w.bytes.push (UInt8.ofNat tail) }

/-- Writes the lowest bits of a number, byte by byte. -/
def putBits (w : Writer) (width value : Nat) : Except Fault Writer :=
  if hpos : width = 0 then .ok w
  else
    match hshare : w.share width with
    | .error fault => .error fault
    | .ok (take, rest) =>
      have : rest < width := rest_lt hpos hshare
      do
        let w ← w.fill take (value >>> rest)
        w.putBits rest value
termination_by width

/-- Writes the lowest `width` bits of a number, at most 64. -/
def put (w : Writer) (width value : Nat) : Except Fault Writer := do
  let width ← Checked.atMost 64 width
  w.putBits width value

/-- Writes one bit. -/
def putFlag (w : Writer) (b : Bool) : Except Fault Writer :=
  w.put 1 b.toNat

/-- Writes the lowest `width` bits of an integer in two's complement. -/
def putSigned (w : Writer) (width : Nat) (value : Int) : Except Fault Writer :=
  w.put width (value % (1 <<< width : Nat)).toNat

/-- Writes a byte string, which is appended as it is if it starts at a boundary. -/
def putBytes (w : Writer) (bytes : List UInt8) : Except Fault Writer :=
  if w.isAligned then .ok { w with bytes := w.bytes.appendList bytes }
  else bytes.foldlM (fun w b => w.put 8 b.toNat) w

/-- Writes the Exp-Golomb code of a number: its successor in binary, behind one zero bit for each of
the successor's bits but the first. -/
def putUnsignedCode (w : Writer) (value : Nat) : Except Fault Writer := do
  let code ← Checked.add 64 value 1
  let length := code.log2 + 1
  let w ← w.put (← Checked.sub length 1) 0
  w.put length code

/-- The number under which an integer is coded.  A positive integer `n` takes the code of
`2 * n - 1` and any other the code of `-2 * n`. -/
def codeOfSigned (value : Int) : Except Fault Nat := do
  let double ← Checked.mul 64 2 value.natAbs
  if 0 < value then Checked.sub double 1 else return double

/-- Writes the signed Exp-Golomb code of an integer. -/
def putSignedCode (w : Writer) (value : Int) : Except Fault Writer := do
  w.putUnsignedCode (← codeOfSigned value)

/-- Pads with zero bits up to the next byte boundary. -/
def realign (w : Writer) : Except Fault Writer := do
  if w.filled = 0 then
    return w
  w.put (← Checked.sub 8 w.filled) 0

/-- The written bytes, the last one padded with zero bits. -/
def finish (w : Writer) : Except Fault (List UInt8) := do
  return (← w.realign).bytes.toList

end Writer

/-- A field of a fixed layout: its width in bits and its value. -/
structure Field where
  width : Nat
  value : Nat
  deriving DecidableEq

/-- The number of bits that a layout takes. -/
def Field.totalWidth (fields : List Field) : Nat :=
  fields.foldr (fun f n => f.width + n) 0

/-- A field that holds an integer in two's complement. -/
def Field.ofInt (width : Nat) (value : Int) : Field :=
  ⟨width, (value % (1 <<< width : Nat)).toNat⟩

/-- Writes the fields of a layout one after the other. -/
def Writer.putFields (w : Writer) (fields : List Field) : Except Fault Writer :=
  fields.foldlM (fun w f => w.put f.width f.value) w

end DolbyVision.Bits
