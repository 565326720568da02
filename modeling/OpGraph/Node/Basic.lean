import OpGraph.Node.Kind
import OpGraph.Tensor.Text

/-!
Nodes: single operations of a model graph, with their attributes.
-/

namespace OpGraph

abbrev NodeId := String

abbrev Attributes := Std.ExtTreeMap String OrderedJson

structure Node where
  id : NodeId
  kind : NodeKind
  /-- A name for people, carried over when the node is replaced. -/
  name : Option String := none
  /-- The element type of the output, where the operation lets it be chosen. -/
  outputType : Option ElementType := none
  /-- The value of a constant. -/
  value : Option Tensor := none
  /-- The static shape of a parameter. -/
  shape : Option Shape := none
  /-- What else the operation has, in free form. -/
  attributes : Attributes := ∅
deriving DecidableEq

namespace Node

/-- The name, or the id of a node without one. -/
def softName (node : Node) : String := node.name.getD node.id

def display (node : Node) : String := s!"{node.kind.display}({node.softName})"

def withAttribute (node : Node) (key : String) (value : OrderedJson) : Node :=
  { node with attributes := node.attributes.insert key value }

/-! ## Common nodes -/

def parameter (id : NodeId) (shape : Option Shape) : Node := { id, kind := .parameter, shape }

def result (id : NodeId) : Node := { id, kind := .result }

/-- A constant, declared with the element type of its value. -/
def const (id : NodeId) (value : Tensor) : Node :=
  { id, kind := .const, outputType := some value.elementType, value := some value }

end Node
end OpGraph
