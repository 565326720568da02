import OpGraph.Json.Extract

/-!
The operation that a node performs. `rank` and the operations this library does not know have no
counterpart in the intermediate representation.
-/

namespace OpGraph

inductive NodeKind where
  | parameter
  | result
  | const
  | rank
  | shapeOf
  | squeeze
  | other (name : String)
deriving DecidableEq

namespace NodeKind

/-- The kinds that the library knows. -/
def known : List NodeKind := [parameter, result, const, rank, shapeOf, squeeze]

def display : NodeKind → String
  | parameter => "Parameter"
  | result => "Result"
  | const => "Const"
  | rank => "Rank"
  | shapeOf => "ShapeOf"
  | squeeze => "Squeeze"
  | other name => name

/-- Whether the intermediate representation has this operation. -/
def isIrOp : NodeKind → Bool
  | rank | other _ => false
  | _ => true

def toJson : NodeKind → Json
  | other name => .object [("Other", .string name)]
  | kind => .string kind.display

def ofDocument? (document : Document) : Option NodeKind := do
  match ← document.toChoice? with
  | ("Other", some name) => other <$> name.toText?
  | (name, content) =>
    if Document.isEmptyContent content then known.find? fun kind => kind.display == name else none

end NodeKind
end OpGraph
