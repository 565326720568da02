import OpGraph.Graph.TopologicalOrder

/-!
Static evaluation: shapes flow from parameters and values from constants through the operations on
shapes, producers before consumers. A result node records its input as its own output.
-/

namespace OpGraph

inductive InferError where
  | missingShape (node : NodeId)
  | missingInput (node : NodeId) (port : UInt64)
  | missingValue (node : NodeId) (port : UInt64)
  | axisOutOfRange (node : NodeId) (axis : Int64) (rank : Nat)
  | nonUnitAxis (node : NodeId) (axis : Nat) (dimension : UInt64)
  | unsupported (node : NodeId) (kind : NodeKind)
  | graph (error : GraphError)
  | tensor (error : TensorError)
deriving DecidableEq

def InferError.message : InferError → String
  | missingShape node => s!"Parameter '{node}' has no static shape"
  | missingInput node port => s!"input port {port} of '{node}' is not connected"
  | missingValue node port => s!"'{node}' needs a constant value on input port {port}"
  | axisOutOfRange node axis rank =>
    let axis := axis.toInt
    s!"axis {axis} is out of range for rank {rank} at '{node}'"
  | nonUnitAxis node axis dimension => s!"cannot squeeze axis {axis} of size {dimension} at '{node}'"
  | unsupported node kind => s!"no evaluation rule for {kind.display} node '{node}'"
  | graph error => s!"graph error: {error.message}"
  | tensor error => s!"tensor error: {error.message}"

/-- What is known about an output port. -/
structure Inferred where
  shape : Shape
  /-- The value, where it does not depend on the data of a run. -/
  value : Option Tensor
deriving DecidableEq

namespace Inferred

def ofShape (shape : Shape) : Inferred := ⟨shape, none⟩

def ofTensor (value : Tensor) : Inferred := ⟨value.shape, some value⟩

end Inferred

abbrev Known := Std.ExtTreeMap Port Inferred

namespace Inference

/-- What is known about the producer of an input port. -/
def input (graph : Graph) (known : Known) (node : Node) (port : UInt64) : Except InferError Inferred :=
  match graph.producer? ⟨node.id, port⟩ >>= fun source => known[source]? with
  | some inferred => .ok inferred
  | none => .error (.missingInput node.id port)

/-- The position that an axis names; a negative one counts from the end. -/
def position (node : NodeId) (rank : Nat) (axis : Int64) : Except InferError Nat :=
  let signedRank := Int64.ofNat rank
  let position := if axis < 0 then axis + signedRank else axis
  if position < 0 ∨ signedRank ≤ position then .error (.axisOutOfRange node axis rank)
  else .ok position.toInt.toNat

/-- The positions of the dimensions of size 1. -/
def unitPositions (shape : Shape) : List Nat :=
  (shape.zipIdx.filter fun (dimension, _) => dimension == 1).map Prod.snd

/-- The shape without the dimensions at the given positions. -/
def dropPositions (shape : Shape) (positions : List Nat) : Shape :=
  (shape.zipIdx.filter fun (_, index) => !positions.contains index).map Prod.fst

/-- Removes the given positions, all of which must be of size 1. -/
def squeezeAt (node : NodeId) (data : Inferred) (positions : List Nat) : Except InferError Inferred := do
  positions.forM fun index =>
    match data.shape[index]? with
    | some dimension => if dimension = 1 then .ok () else .error (.nonUnitAxis node index dimension)
    | none => .ok ()
  let shape := dropPositions data.shape positions
  match data.value with
  | none => .ok ⟨shape, none⟩
  | some value =>
    match value.reshape shape with
    | .ok value => .ok ⟨shape, some value⟩
    | .error error => .error (.tensor error)

/-- The axes to remove come from input port 1; where it is not connected, all dimensions of size 1 go. -/
def squeeze (graph : Graph) (known : Known) (node : Node) : Except InferError Inferred := do
  let data ← input graph known node 0
  if (graph.inEdge? ⟨node.id, 1⟩).isSome then
    let axes ← input graph known node 1
    match axes.value >>= Tensor.ints? with
    | none => .error (.missingValue node.id 1)
    | some axes => squeezeAt node.id data (← axes.mapM (position node.id data.shape.length))
  else squeezeAt node.id data (unitPositions data.shape)

/-- The rule for one node, given what is known about its producers. -/
def inferNode (graph : Graph) (known : Known) (node : Node) : Except InferError Inferred :=
  match node.kind with
  | .parameter =>
    match node.shape with
    | some shape => .ok (.ofShape shape)
    | none => .error (.missingShape node.id)
  | .const =>
    match node.value with
    | some value => .ok (.ofTensor value)
    | none => .error (.missingValue node.id 0)
  | .result => input graph known node 0
  | .shapeOf => do
    let data ← input graph known node 0
    return .ofTensor (.ofShape data.shape (node.outputType.getD .i64))
  | .rank => do
    let data ← input graph known node 0
    match (Tensor.ofShape [UInt64.ofNat data.shape.length] (node.outputType.getD .i64)).reshape [] with
    | .ok rank => .ok (.ofTensor rank)
    | .error error => .error (.tensor error)
  | .squeeze => squeeze graph known node
  | .other _ => .error (.unsupported node.id node.kind)

/-- Adds what is known about the output of one node. -/
def step (graph : Graph) (known : Known) (id : NodeId) : Except InferError Known :=
  match graph.node? id with
  | none => .ok known
  | some node => do
    let inferred ← inferNode graph known node
    return known.insert ⟨id, 0⟩ inferred

end Inference

/-- What is known about output port 0 of every node. -/
def Graph.infer (graph : Graph) : Except InferError Known :=
  match graph.topologicalOrder with
  | .error error => .error (.graph error)
  | .ok order => order.foldlM (Inference.step graph) ∅

end OpGraph
