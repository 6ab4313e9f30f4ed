/-
**Reshaping of the base layer.**

A mapping turns base layer codewords into output codewords, one curve for each color component.  A
curve is cut by its pivots into pieces; a piece is a polynomial of its own component or a regression
over all three.  If there is a residual, a mapping also says how the enhancement layer is inversely
quantized.

Main definitions:

* `DolbyVision.Piece`, `DolbyVision.Curve` — a piece, and the pieces of a component;
* `DolbyVision.Nlq`, `DolbyVision.NlqMethod` — inverse quantization of the enhancement layer;
* `DolbyVision.Mapping` — the whole mapping;
* `DolbyVision.maxPivots`, `DolbyVision.maxId` — limits of the format.
-/

set_option relaxedAutoImplicit false
set_option autoImplicit false

namespace DolbyVision

/-- The largest number of pivots of a curve. -/
def maxPivots : Nat := 9

/-- The largest identifier of a mapping or of a color description. -/
def maxId : Nat := 15

/-- The coefficients of one piece of a curve. -/
inductive Piece where
  /-- A polynomial of order 1 or 2.  Coefficients beyond the order are 0. -/
  | polynomial (order : UInt8) (coefficients : Vector Int64 3)
  /-- A multivariate multiple regression of order 1 to 3.  Rows beyond the order are 0. -/
  | mmr (order : UInt8) (constant : Int64) (coefficients : Vector (Vector Int64 7) 3)
  deriving DecidableEq

instance : Inhabited Piece := ⟨.polynomial 1 (Vector.replicate 3 0)⟩

/-- The order of a piece. -/
def Piece.order : Piece → UInt8
  | polynomial order _ => order
  | mmr order _ _ => order

/-- Whether the order of a piece is one that its kind has. -/
def Piece.hasValidOrder : Piece → Bool
  | polynomial order _ => order == 1 || order == 2
  | mmr order _ _ => 1 ≤ order && order ≤ 3

/-- The curve of one color component: 2 to 9 pivots and a piece between each two neighbours. -/
structure Curve where
  pivots : List UInt16 := []
  pieces : List Piece := []
  deriving DecidableEq, Inhabited

/-- The methods of inverse quantization. -/
inductive NlqMethod where
  | linearDeadzone
  deriving DecidableEq, Inhabited

/-- The code of a method. -/
def NlqMethod.code : NlqMethod → Nat
  | linearDeadzone => 0

/-- The inverse quantization of one color component. -/
structure Nlq where
  offset : UInt16 := 0
  inMax : UInt64 := 0
  slope : UInt64 := 0
  threshold : UInt64 := 0
  deriving DecidableEq

instance : Inhabited Nlq := ⟨{}⟩

/-- A mapping of the base layer and, if there is a residual, of the enhancement layer. -/
structure Mapping where
  /-- The slot in which the mapping is kept, 0 to 15. -/
  id : UInt8 := 0
  colorSpace : UInt8 := 0
  chromaFormat : UInt8 := 0
  curves : Vector Curve 3 := Vector.replicate 3 {}
  /-- The inverse quantization of the residual, if there is one. -/
  nlqMethod : Option NlqMethod := none
  partitionsX : UInt32 := 0
  partitionsY : UInt32 := 0
  nlq : Vector Nlq 3 := Vector.replicate 3 {}
  nlqPivots : Vector UInt16 2 := Vector.replicate 2 0
  deriving DecidableEq

instance : Inhabited Mapping := ⟨{}⟩

end DolbyVision
