import OpGraph.Graph.Edit

/-!
Operations that passes insert. An operation keeps the requested name, and its id is the first unused
one derived from it.
-/

namespace OpGraph.Graph

def createOp (kind : NodeKind) (name : String) : Edit GraphError NodeId := do
  addNode { id := (← get).uniqueId name, kind, name := some name }

def createShapeOf (name : String) (outputType : ElementType) : Edit GraphError NodeId := do
  let id := (← get).uniqueId name
  addNode { id, kind := .shapeOf, name := some name, outputType := some outputType }

def createConst (name : String) (value : Tensor) : Edit GraphError NodeId := do
  addNode { Node.const ((← get).uniqueId name) value with name := some name }

/-- An operation with a constant on input port 1 and, if one is given, a producer on input port 0. -/
def createOpWithConst [EdgeIdSupply] (kind : NodeKind) (value : Tensor) (name : String)
    (first : Option Port) : Edit GraphError NodeId := do
  let op ← createOp kind name
  let const ← createConst s!"{name}/axis" value
  discard <| connect ⟨const, 0⟩ ⟨op, 1⟩
  match first with
  | none => return op
  | some source =>
    discard <| connect source ⟨op, 0⟩
    return op

end OpGraph.Graph
