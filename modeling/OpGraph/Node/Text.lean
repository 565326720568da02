import OpGraph.Node.Basic

/-!
The JSON of nodes, and their equality up to the signs of zeros.
-/

namespace OpGraph

namespace Attributes

def toJson (attributes : Attributes) : Json := .object (OrderedJson.members attributes)

/-- Attributes whose values have at most `room` levels of nesting. -/
def ofDocument? (room : Nat) (document : Document) : Option Attributes := do
  let entries ← (← document.toMembers?).mapM fun (key, value) => (key, ·) <$> value.toOrdered? room
  return .ofList entries

/-- The same keys with equal values, up to the sign of a zero. -/
def numEq (first second : Attributes) : Bool :=
  first.toList.isEqv second.toList fun (key, value) (other, otherValue) =>
    key == other && value.numEq otherValue

end Attributes

namespace Node

def toJson (node : Node) : Json :=
  .object [
    ("id", .string node.id),
    ("kind", node.kind.toJson),
    ("name", .ofOption .string node.name),
    ("output_type", .ofOption ElementType.toJson node.outputType),
    ("value", .ofOption Tensor.toJson node.value),
    ("shape", .ofOption Shape.toJson node.shape),
    ("attrs", node.attributes.toJson)]

/-- A node that stands inside `depth` arrays and objects. -/
def ofDocument? (depth : Nat) (document : Document) : Option Node := do
  let names := ["id", "kind", "name", "output_type", "value", "shape", "attrs"]
  let room := Document.nestingLimit - (depth + 2)
  match ← document.toFields? names with
  | [id, kind, name, outputType, value, shape, attributes] =>
    return {
      id := ← Document.required? Document.toText? id
      kind := ← Document.required? NodeKind.ofDocument? kind
      name := ← Document.optional? Document.toText? name
      outputType := ← Document.optional? ElementType.ofDocument? outputType
      value := ← Document.optional? Tensor.ofDocument? value
      shape := ← Document.optional? Shape.ofDocument? shape
      attributes := ← Document.defaulted? ∅ (Attributes.ofDocument? room) attributes }
  | _ => none

/-- Equality up to the signs of zeros. -/
def numEq (first second : Node) : Bool :=
  first.id == second.id && first.kind == second.kind && first.name == second.name
    && first.outputType == second.outputType && optionEq first.value second.value
    && first.shape == second.shape && first.attributes.numEq second.attributes
where
  optionEq : Option Tensor → Option Tensor → Bool
    | none, none => true
    | some value, some other => value.numEq other
    | _, _ => false

end Node
end OpGraph
