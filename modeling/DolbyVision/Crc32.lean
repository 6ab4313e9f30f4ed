/-
**The checksum of an RPU.**

The cyclic redundancy check with the generator `0x04c11db7`, fed most significant bit first, without
a final complement.  Started at all ones it is the checksum that closes every RPU.

The register is described bit by bit: `shift` divides out one bit.  A byte is handled in one step
through a table of the remainders of all 256 bytes, which is built from `shift` and from nothing
else.

Main definitions:

* `DolbyVision.Crc32.shift`, `DolbyVision.Crc32.remainder` — one bit, and the eight bits of a byte;
* `DolbyVision.Crc32.table`, `DolbyVision.Crc32.step` — the remainders of all bytes, and a step over
  one byte;
* `DolbyVision.Crc32.update`, `DolbyVision.Crc32.checksum` — a register over a byte string, and the
  checksum of one;
* `DolbyVision.Crc32.Portion`, `DolbyVision.Crc32.absorbAll` — bytes as they are handed over,
  singly, in fours or in buffers, and a register over all of them.
-/

set_option relaxedAutoImplicit false
set_option autoImplicit false

namespace DolbyVision.Crc32

/-- The generator polynomial without its leading term. -/
def polynomial : UInt32 := 0x04c11db7

/-- Moves the register by one bit and divides out the bit that leaves it. -/
def shift (register : UInt32) : UInt32 :=
  if register &&& 0x80000000 ≠ 0 then (register <<< 1) ^^^ polynomial else register <<< 1

/-- The register after `n` bits of zeros. -/
def shifts : Nat → UInt32 → UInt32
  | 0, register => register
  | n + 1, register => shifts n (shift register)

@[simp] theorem shifts_zero (register : UInt32) : shifts 0 register = register := rfl

@[simp] theorem shifts_succ (n : Nat) (register : UInt32) :
    shifts (n + 1) register = shifts n (shift register) := rfl

/-- What a byte in the top of the register leaves after it has been shifted out. -/
def remainder (byte : UInt8) : UInt32 :=
  shifts 8 (byte.toUInt32 <<< 24)

/-- The remainders of all bytes. -/
def table : Vector UInt32 256 :=
  Vector.ofFn fun i => remainder (UInt8.ofNat i)

theorem table_get (byte : UInt8) : table.get byte.toFin = remainder byte := by
  have get_eq (v : Vector UInt32 256) (i : Fin 256) : v.get i = v[i] := rfl
  simp [get_eq, table]

/-- The register after one more byte. -/
def step (register : UInt32) (byte : UInt8) : UInt32 :=
  let index := (register >>> 24).toUInt8 ^^^ byte
  (register <<< 8) ^^^ table.get index.toFin

/-- The register after a byte string. -/
def update (register : UInt32) (bytes : List UInt8) : UInt32 :=
  bytes.foldl step register

@[simp] theorem update_nil (register : UInt32) : update register [] = register := rfl

@[simp] theorem update_cons (register : UInt32) (byte : UInt8) (bytes : List UInt8) :
    update register (byte :: bytes) = update (step register byte) bytes := rfl

theorem update_append (register : UInt32) (a b : List UInt8) :
    update register (a ++ b) = update (update register a) b :=
  List.foldl_append

/-- The register before the first byte of an RPU. -/
def initial : UInt32 := 0xffffffff

/-- The checksum of a byte string. -/
def checksum (bytes : List UInt8) : UInt32 :=
  update initial bytes

/-- The register after four more bytes. -/
def stepQuad (register : UInt32) (bytes : Vector UInt8 4) : UInt32 :=
  step (step (step (step register bytes[0]) bytes[1]) bytes[2]) bytes[3]

/-- Bytes that are handed over at once. -/
inductive Portion where
  | byte (b : UInt8)
  | quad (bytes : Vector UInt8 4)
  | buffer (bytes : List UInt8)

/-- The bytes of a portion, in the order in which they are taken. -/
def Portion.bytes : Portion → List UInt8
  | byte b => [b]
  | quad bytes => bytes.toList
  | buffer bytes => bytes

/-- The bytes of all portions. -/
def bytesOf (portions : List Portion) : List UInt8 :=
  portions.flatMap Portion.bytes

@[simp] theorem bytesOf_nil : bytesOf [] = [] := rfl

@[simp] theorem bytesOf_cons (portion : Portion) (portions : List Portion) :
    bytesOf (portion :: portions) = portion.bytes ++ bytesOf portions := rfl

/-- The register after one more portion. -/
def absorb (register : UInt32) : Portion → UInt32
  | .byte b => step register b
  | .quad bytes => stepQuad register bytes
  | .buffer bytes => update register bytes

/-- The register after all portions. -/
def absorbAll (register : UInt32) (portions : List Portion) : UInt32 :=
  portions.foldl absorb register

@[simp] theorem absorbAll_nil (register : UInt32) : absorbAll register [] = register := rfl

@[simp] theorem absorbAll_cons (register : UInt32) (portion : Portion) (portions : List Portion) :
    absorbAll register (portion :: portions) = absorbAll (absorb register portion) portions := rfl

/-- The four bytes of a word, the most significant one first. -/
def bigEndian (word : UInt32) : List UInt8 :=
  [(word >>> 24).toUInt8, (word >>> 16).toUInt8, (word >>> 8).toUInt8, word.toUInt8]

end DolbyVision.Crc32
