import OpGraph.Tensor.ElementType

/-!
Dense constant tensors. Their elements are stored as integers or as doubles; the element type says
what precision is declared. `Tensor.make` checks that shape, storage and element type agree; a
tensor read from a file is taken as it is.
-/

namespace OpGraph

abbrev Shape := List UInt64

inductive TensorData where
  | int (values : List Int64)
  | float (values : List Binary64)
deriving DecidableEq

namespace TensorData

def length : TensorData → Nat
  | int values => values.length
  | float values => values.length

/-- The word for this storage in messages. -/
def storage : TensorData → String
  | int _ => "integer"
  | float _ => "float"

def isInteger : TensorData → Bool
  | int _ => true
  | float _ => false

/-- Equality up to the sign of a zero; what is not a number equals nothing. -/
def numEq : TensorData → TensorData → Bool
  | int first, int second => first == second
  | float first, float second => first.isEqv second Binary64.numEq
  | _, _ => false

end TensorData

/-- The number of elements of a shape, unless a product on the way does not fit in 64 bits. -/
def Shape.count? (shape : Shape) : Option Nat :=
  shape.foldlM (fun count dimension =>
    if count * dimension.toNat < UInt64.size then some (count * dimension.toNat) else none) 1

structure Tensor where
  elementType : ElementType
  /-- The dimensions; none for a scalar. -/
  shape : Shape
  data : TensorData
deriving DecidableEq

inductive TensorError where
  | shapeMismatch (shape : Shape) (expected actual : Nat)
  | tooLarge (shape : Shape)
  | storageMismatch (elementType : ElementType) (storage : String)
deriving DecidableEq

namespace Tensor

/-- A tensor whose data fits its shape and its element type. -/
def make (elementType : ElementType) (shape : Shape) (data : TensorData) : Except TensorError Tensor :=
  match shape.count? with
  | none => .error (.tooLarge shape)
  | some expected =>
    if data.length ≠ expected then .error (.shapeMismatch shape expected data.length)
    else if data.isInteger ≠ elementType.isInteger then .error (.storageMismatch elementType data.storage)
    else .ok ⟨elementType, shape, data⟩

/-- A list of 64-bit integers. -/
def ofInts (values : List Int64) : Tensor := ⟨.i64, [UInt64.ofNat values.length], .int values⟩

def scalar (value : Int64) : Tensor := ⟨.i64, [], .int [value]⟩

/-- The list of the given dimensions. A dimension from `2 ^ 63` on turns negative. -/
def ofShape (dimensions : Shape) (elementType : ElementType) : Tensor :=
  ⟨elementType, [UInt64.ofNat dimensions.length], .int (dimensions.map UInt64.toInt64)⟩

def length (tensor : Tensor) : Nat := tensor.data.length

def rank (tensor : Tensor) : Nat := tensor.shape.length

def ints? (tensor : Tensor) : Option (List Int64) :=
  match tensor.data with
  | .int values => some values
  | .float _ => none

/-- The same data under another shape of as many elements. -/
def reshape (tensor : Tensor) (shape : Shape) : Except TensorError Tensor :=
  make tensor.elementType shape tensor.data

/-- Equality up to the sign of a zero. -/
def numEq (first second : Tensor) : Bool :=
  first.elementType == second.elementType && first.shape == second.shape && first.data.numEq second.data

end Tensor
end OpGraph
