import OpGraph.Pass.Basic
import OpGraph.Pass.Insertion

/-!
Decomposition of the rank operation. The rank of a tensor is the length of its shape, so

    x → Rank → consumers

becomes

    x → ShapeOf → ShapeOf → Squeeze (axis 0) → consumers

where the first shape is that of `x`, the second one its length in a list, and squeezing takes the
length out of the list. The squeeze inherits the name of the rank.
-/

namespace OpGraph.RankDecomposition

/-- The output type of a node that can be decomposed: it is an index type, and input 0 is connected. -/
def outputType (graph : Graph) (node : Node) : Except PassError ElementType :=
  match node.outputType with
  | none => .error (.missingAttribute node.softName node.kind "output_type")
  | some outputType =>
    if !outputType.isIndex then .error (.unsupportedOutputType node.softName node.kind outputType)
    else if (graph.inEdge? ⟨node.id, 0⟩).isNone then .error (.disconnected node.softName 0)
    else .ok outputType

def requiredNode (id : NodeId) : Edit PassError Node := do
  match (← get).node? id with
  | some node => return node
  | none => throw (.graph (.nodeNotFound id))

variable [EdgeIdSupply]

/-- Adds the chain without its input; gives its first and its last node. -/
def createChain (name : String) (outputType : ElementType) : Edit GraphError (NodeId × NodeId) := do
  let shape ← Graph.createShapeOf s!"{name}/shape_of" outputType
  let length ← Graph.createShapeOf s!"{name}/rank_of" outputType
  discard <| Graph.connect ⟨shape, 0⟩ ⟨length, 0⟩
  let rank ← Graph.createOpWithConst .squeeze (.scalar 0) s!"{name}/0d_rank_of" (some ⟨length, 0⟩)
  return (shape, rank)

/-- Puts a chain, given by its first and its last node, in the place of a node, and passes on its name. -/
def splice (id shape rank : NodeId) (name : String) : Edit GraphError Unit := do
  discard <| Graph.setSource ⟨id, 0⟩ ⟨rank, 0⟩
  discard <| Graph.setDestination ⟨id, 0⟩ ⟨shape, 0⟩
  discard <| Graph.removeNode id
  Graph.renameNodes [(rank, name)]

/-- Inserts the chain in place of a node, of whatever kind, that computes a rank; gives its last node. -/
def insertChain (id : NodeId) (name : String) (outputType : ElementType) : Edit GraphError NodeId := do
  let (shape, rank) ← createChain name outputType
  splice id shape rank name
  return rank

/-- Decomposes one node; gives the one that stands for it from then on. -/
def decompose (id : NodeId) : Edit PassError NodeId := do
  let node ← requiredNode id
  let outputType ← (outputType (← get) node : Except PassError ElementType)
  (insertChain id node.softName outputType).inPass

/-- What a decomposition does: four edges are inserted and one is removed, and those to the consumers move. -/
def statsOf (graph : Graph) (id : NodeId) : PassStats :=
  let consumers := (graph.outEdges ⟨id, 0⟩).length
  { matched := 1, nodesAdded := 4, nodesRemoved := 1, edgesAdded := 4 + consumers, edgesRemoved := 1 + consumers }

def replace (id : NodeId) : Edit PassError PassStats := do
  let graph ← get
  discard <| decompose id
  return statsOf graph id

def replacement : Replacement where
  kind := .rank
  check graph node := discard (outputType graph node)
  replace := replace

/-- Decomposes every rank operation, or none if one of them cannot be decomposed. -/
def pass : Pass := { name := "RankDecomposer", run := replacement.replaceAll }

end OpGraph.RankDecomposition

namespace OpGraph.PassRegistry

/-- The passes of the front phase. -/
def frontPhase [EdgeIdSupply] : PassRegistry := { passes := [RankDecomposition.pass] }

end OpGraph.PassRegistry
