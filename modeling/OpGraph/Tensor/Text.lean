import OpGraph.Tensor.Basic
import OpGraph.Decimal.Layout

/-!
The texts of tensors: what is shown to people, and the JSON of files.
-/

namespace OpGraph

/-- Doubles are shown positionally from `0.0001` up to `10 ^ 16`. -/
def displayLayout : Decimal.Layout := ⟨-4, 16, false, .up⟩

def Binary64.display (x : Binary64) : String :=
  if x.isNaN then "NaN"
  else if x.isFinite then displayLayout.render x
  else if x.isNegative then "-inf" else "inf"

/-- Items in square brackets, with a comma and a blank between them. -/
def displayList (items : List String) : String := "[" ++ ", ".intercalate items ++ "]"

def Shape.display (shape : Shape) : String :=
  displayList (shape.map fun dimension => toString dimension.toNat)

namespace TensorData

def display : TensorData → String
  | int values => displayList (values.map fun value => toString value.toInt)
  | float values => displayList (values.map Binary64.display)

def toJson : TensorData → Json
  | int values => .object [("Int", .array (values.map Json.ofInt64))]
  | float values => .object [("Float", .array (values.map Json.ofBinary64))]

def ofDocument? (document : Document) : Option TensorData := do
  match ← document.toChoice? with
  | ("Int", some values) => int <$> values.toList? Document.toInt64?
  | ("Float", some values) => float <$> values.toList? Document.toBinary64?
  | _ => none

end TensorData

namespace Shape

def toJson (shape : Shape) : Json := .array (shape.map Json.ofUInt64)

def ofDocument? (document : Document) : Option Shape := document.toList? Document.toUInt64?

end Shape

namespace Tensor

def display (tensor : Tensor) : String :=
  tensor.elementType.display ++ tensor.shape.display ++ tensor.data.display

def toJson (tensor : Tensor) : Json :=
  .object [
    ("element_type", tensor.elementType.toJson),
    ("shape", tensor.shape.toJson),
    ("data", tensor.data.toJson)]

/-- A tensor as it is written; whether its parts agree is not checked. -/
def ofDocument? (document : Document) : Option Tensor := do
  match ← document.toFields? ["element_type", "shape", "data"] with
  | [elementType, shape, data] =>
    return {
      elementType := ← Document.required? ElementType.ofDocument? elementType
      shape := ← Document.required? Shape.ofDocument? shape
      data := ← Document.required? TensorData.ofDocument? data }
  | _ => none

end Tensor

def TensorError.message : TensorError → String
  | shapeMismatch shape expected actual =>
    s!"tensor data has {actual} element(s) but shape {shape.display} needs {expected}"
  | tooLarge shape => s!"shape {shape.display} has more elements than can be addressed"
  | storageMismatch elementType storage =>
    s!"element type {elementType.display} cannot hold {storage} data"

end OpGraph
