import OpGraph.Graph.EdgeIds
import OpGraph.Graph.Error

/-!
Edits of a graph that can be refused. A refused edit of one node or edge leaves the graph as it was;
a composed edit leaves behind what its first parts did.
-/

namespace OpGraph

abbrev Edit (ε : Type) := ExceptT ε (StateM Graph)

namespace Graph

/-- Runs an edit; the graph is the one that the edit leaves behind, also where it is refused. -/
def edit (graph : Graph) (action : Edit ε α) : Except ε α × Graph := action.run.run graph

/-- Adds a node under its own id, which must be unused. -/
def addNode (node : Node) : Edit GraphError NodeId := do
  let graph ← get
  if graph.hasNode node.id then throw (.duplicateNode node.id)
  else
    set (graph.withNode node)
    return node.id

/-- Adds an edge. Its id must be unused, both its ends in the graph, and its input port free. -/
def addEdge (edge : Edge) : Edit GraphError EdgeId := do
  let graph ← get
  if graph.edges.contains edge.id then throw (.duplicateEdge edge.id)
  else if !graph.hasNode edge.source.node || !graph.hasNode edge.target.node then
    throw (.danglingEdge edge.source.node edge.target.node)
  else if (graph.inEdge? edge.target).isSome then
    throw (.inputPortOccupied edge.target.node edge.target.index)
  else
    set (graph.withEdge edge)
    return edge.id

/-- Joins two ports by an edge with an unused id. -/
def connect [EdgeIdSupply] (source target : Port) : Edit GraphError EdgeId := do
  addEdge ⟨(← get).unusedEdgeId, source, target⟩

def removeEdge (id : EdgeId) : Edit GraphError Edge := do
  let graph ← get
  match graph.edge? id with
  | some edge =>
    set (graph.withoutEdge edge)
    return edge
  | none => throw (.edgeNotFound id)

/-- Removes a node and all edges at it. -/
def removeNode (id : NodeId) : Edit GraphError Node := do
  let graph ← get
  match graph.node? id with
  | some node =>
    set (graph.withoutNode id)
    return node
  | none => throw (.nodeNotFound id)

def requireNode (id : NodeId) : Edit GraphError Unit := do
  unless (← get).hasNode id do throw (.nodeNotFound id)

/-- Makes `new` the producer of every input that `old` feeds; gives their number. -/
def setSource [EdgeIdSupply] (old new : Port) : Edit GraphError Nat := do
  requireNode new.node
  let moved := (← get).outEdges old
  moved.forM fun edge => do
    discard <| removeEdge edge.id
    discard <| connect new edge.target
  return moved.length

/-- Lets the producer of the input `old` feed the input `new` instead; tells whether there is one. -/
def setDestination [EdgeIdSupply] (old new : Port) : Edit GraphError Bool := do
  requireNode new.node
  match (← get).inEdge? old with
  | none => return false
  | some edge =>
    discard <| removeEdge edge.id
    discard <| connect edge.source new
    return true

/-- Names nodes, once all of them are known to be in the graph. -/
def renameNodes (names : List (NodeId × String)) : Edit GraphError Unit := do
  names.forM fun (id, _) => requireNode id
  modify fun graph => names.foldl (fun graph (id, name) =>
    graph.modifyNode id fun node => { node with name := some name }) graph

end Graph
end OpGraph
