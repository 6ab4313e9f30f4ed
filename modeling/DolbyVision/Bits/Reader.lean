/-
**Reading bits through a cache.**

A `Reader` walks over a byte string, the most significant bit of each byte first.  It keeps up to
eight bytes in a 64-bit cache, from whose top it takes bits; a read that needs more than the cache
holds takes what is there, loads the next eight bytes and goes on.

A read is a `BitParser`: it gives a value or a fault, and in both cases the reader it leaves behind.
A failed read has used up the caches that it went through but keeps the last one, so reading can go
on after it.

Main definitions:

* `DolbyVision.Bits.Reader` — the bytes that are still to be loaded, and the cache;
* `DolbyVision.Bits.Reader.unread` — the bits that a reader has not yet taken;
* `DolbyVision.Bits.Reader.bits`, `signed`, `flag` — reads of a fixed width, up to 64 bits;
* `DolbyVision.Bits.Reader.bits32`, `signed32` — reads of up to 32 bits;
* `DolbyVision.Bits.Reader.skip`, `realign` — moves without a value;
* `DolbyVision.Bits.Reader.unary`, `unsignedCode`, `signedCode` — Exp-Golomb codes.
-/

import DolbyVision.Bits.Basic
import DolbyVision.Checked

set_option relaxedAutoImplicit false
set_option autoImplicit false

namespace DolbyVision.Bits

/-- A position in a byte string, with up to 64 bits of it loaded ahead. -/
structure Reader where
  /-- The bytes that have not been loaded. -/
  rest : List UInt8
  /-- The number of bytes that have not been loaded. -/
  restLength : Nat
  /-- The loaded bits, from the top of the word downwards. -/
  cache : UInt64
  /-- The number of loaded bits that have not been taken. -/
  left : Nat
  /-- Whether a shift by the whole cache is reported as a defect.  If not, the word shift takes its
  amount modulo 64 and leaves the cache as it was. -/
  checked : Bool
  restLength_eq : restLength = rest.length

/-- A read: a value or a fault, and the reader that is left. -/
abbrev BitParser := EStateM Fault Reader

/-- A computation without a reader takes part in a read and leaves the reader as it was. -/
instance {σ : Type} : MonadLift (Except Fault) (EStateM Fault σ) where
  monadLift x := fun s =>
    match x with
    | .ok a => .ok a s
    | .error e => .error e s

namespace Reader

/-- A reader at the start of a byte string. -/
def ofBytes (bytes : List UInt8) : Reader where
  rest := bytes
  restLength := bytes.length
  cache := 0
  left := 0
  checked := true
  restLength_eq := rfl

/-- The number of bits that have not been taken. -/
def bitsLeft (r : Reader) : Nat :=
  8 * r.restLength + r.left

/-- The bits that have not been taken, in the order in which they are read. -/
def unread (r : Reader) : List Bool :=
  (toBits 64 r.cache.toNat).take r.left ++ Bits.ofBytes r.rest

/-- The first `n` bytes of a list, the first of them on top of a field of `8 * n` bits, with zeros
in place of bytes that are missing. -/
def load : Nat → List UInt8 → UInt64
  | 0, _ => 0
  | _ + 1, [] => 0
  | n + 1, b :: bytes => b.toUInt64 <<< UInt64.ofNat (8 * n) ||| load n bytes

/-- The reader after its cache has been dropped and up to eight bytes have been loaded.  They are
cut off behind the eighth byte or at the end, whichever comes first, so every cut has its place. -/
def fetched (r : Reader) : Reader where
  rest := r.rest.drop 8
  restLength := r.restLength - 8
  cache := load 8 r.rest
  left := 8 * min 8 r.restLength
  checked := r.checked
  restLength_eq := by rw [List.length_drop, r.restLength_eq]

theorem length_rest_fetched_lt {r : Reader} (h : r.rest ≠ []) :
    r.fetched.rest.length < r.rest.length := by
  have := List.length_pos_iff.2 h
  simp only [fetched, List.length_drop]
  omega

/-- Drops the cache and loads bytes, of which there must be one. -/
def fetch : BitParser Unit := fun r =>
  if r.rest = [] then .error .unexpectedEnd r else .ok () r.fetched

/-- Takes `n` bits off the cache, which holds at least as many. -/
def consume (n : Nat) : BitParser Unit := fun r =>
  if r.left < n then .error (.defect .negativeDifference) r
  else if n < 64 then .ok () { r with cache := r.cache <<< UInt64.ofNat n, left := r.left - n }
  else if r.checked then .error (.defect .wideShift) r
  else .ok () { r with left := r.left - n }

/-- Takes `n` bits off the cache in two steps.  All 64 bits may have to go, which is more than one
shift can drop. -/
def consumeTwice (n : Nat) : BitParser Unit := do
  consume (← Checked.sub n 1)
  consume 1

/-- How far a word has to be moved down so that its upper `n` bits are left. -/
def amountAbove (n : Nat) : Except Fault Nat := do
  Checked.shiftAmount 64 (← Checked.sub 64 n)

/-- Loads bytes until the cache holds the last of `width` wanted bits.  Gives the number of bits
that are still wanted and `value` with the bits of the loaded caches in their places. -/
def gather (width : Nat) (value : UInt64) (r : Reader) :
    EStateM.Result Fault Reader (Nat × UInt64) :=
  if width ≤ r.left then .ok (width, value) r
  else
    match Checked.sub width r.left with
    | .error fault => .error fault r
    | .ok wanted =>
      if h : r.rest = [] then .error .unexpectedEnd r
      else
        have := length_rest_fetched_lt h
        match amountAbove wanted with
        | .error fault => .error fault r.fetched
        | .ok amount =>
          gather wanted (value ||| r.fetched.cache >>> UInt64.ofNat amount) r.fetched
termination_by r.rest.length

/-- Loads bytes until the cache holds the last of `n` unwanted bits.  Gives the number of bits that
are still to be dropped. -/
def seek (n : Nat) (r : Reader) : EStateM.Result Fault Reader Nat :=
  if n ≤ r.left then .ok n r
  else
    match Checked.sub n r.left with
    | .error fault => .error fault r
    | .ok n =>
      if h : r.rest = [] then .error .unexpectedEnd r
      else
        have := length_rest_fetched_lt h
        seek n r.fetched
termination_by r.rest.length

/-- Reads a number of `width` bits, at most 64. -/
def bits (width : Nat) : BitParser Nat := do
  if width = 0 then
    return 0
  let amount ← amountAbove width
  let (wanted, value) ← gather width ((← get).cache >>> UInt64.ofNat amount)
  consumeTwice wanted
  return value.toNat

/-- The two's complement number of `width` bits in a word of `w` bits, which is at least as wide. -/
def extended (w width value : Nat) : Except Fault Int :=
  BitVec.toInt <$> signExtend (BitVec.ofNat w value) width

/-- Reads a two's complement number of `width` bits, at most 64. -/
def signed (width : Nat) : BitParser Int := do
  let value ← bits width
  extended 64 width value

/-- Reads a number of `width` bits, at most 32.  The cache is moved down in two steps, neither of
which is as wide as the word, and the whole of the field is taken off it at once. -/
def bits32 (width : Nat) : BitParser Nat := do
  let amount ← Checked.shiftAmount 64 (← Checked.sub 32 width)
  let (wanted, value) ← gather width (((← get).cache >>> 32) >>> UInt64.ofNat amount)
  consume wanted
  return value.toUInt32.toNat

/-- Reads a two's complement number of `width` bits, at most 32. -/
def signed32 (width : Nat) : BitParser Int := do
  let value ← bits32 width
  extended 32 width value

/-- Reads one bit: the top one of the cache, into which bytes are loaded if it is empty. -/
def flag : BitParser Bool := do
  if (← get).left < 1 then
    fetch
  let top := (← get).cache &&& 0x8000000000000000
  consume 1
  return top != 0

/-- Drops `n` bits. -/
def skip (n : Nat) : BitParser Unit := do
  if n ≤ (← get).left then
    consume n
  else
    let last ← seek n
    if 0 < last then
      consumeTwice last

/-- Drops the bits up to the next byte boundary.  The cache always ends at such a boundary. -/
def realign : BitParser Unit := do
  consume ((← get).left % 8)

/-- The number of zero bits above the highest set bit of a word. -/
def leadingZeros (word : UInt64) : Nat :=
  if word = 0 then 64 else 63 - word.log2.toNat

/-- Counts the zero bits in front of the next set bit, on top of the `count` seen before, and drops
them together with the set bit. -/
def countZeros (count : Nat) (r : Reader) : EStateM.Result Fault Reader Nat :=
  let zeros := leadingZeros r.cache
  if zeros < r.left then
    (do consume zeros; consume 1; Checked.add 32 count zeros : BitParser Nat) r
  else
    match Checked.add 32 count r.left with
    | .error fault => .error fault r
    | .ok count =>
      if h : r.rest = [] then .error .unexpectedEnd r
      else
        have := length_rest_fetched_lt h
        countZeros count r.fetched
termination_by r.rest.length

/-- Reads a number that is written as that many zero bits and a set bit. -/
def unary : BitParser Nat :=
  countZeros 0

/-- What an Exp-Golomb code of `zeros` zero bits and a suffix of as many bits stands for. -/
def codeValue (zeros suffix : Nat) : Except Fault Nat := do
  let smallest ← Checked.sub (← Checked.bit 32 zeros) 1
  Checked.add 32 smallest suffix

/-- Reads an unsigned Exp-Golomb code: `n` zero bits, a set bit and a suffix of `n` bits stand for
`2 ^ n - 1` plus the suffix.  Codes with more than 31 suffix bits are refused. -/
def unsignedCode : BitParser Nat := do
  let zeros ← unary
  if 31 < zeros then
    throw .codeTooLong
  let suffix ← bits32 zeros
  codeValue zeros suffix

/-- Reads a signed Exp-Golomb code.  Odd codes stand for the positive numbers and even ones for the
others, in the order of their magnitude. -/
def signedCode : BitParser Int := do
  let code ← unsignedCode
  let magnitude ← Checked.within 31 (code / 2 + code % 2)
  return if code % 2 = 1 then (magnitude : Int) else -(magnitude : Int)

end Reader

end DolbyVision.Bits
