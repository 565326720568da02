import OpGraph.Edge.Basic

/-!
Model graphs: operations joined by edges from output ports to input ports. An output port may feed
many inputs, an input port has at most one producer. Beside its nodes and edges a graph keeps, for
every node, the edges that leave it and those that reach it, in the order of their insertion.

The updates here are total and check nothing; `OpGraph.Graph.Edit` holds the edits that do.
-/

namespace OpGraph

abbrev Adjacency := Std.ExtTreeMap NodeId (List EdgeId)

structure Graph where
  nodes : Std.ExtTreeMap NodeId Node := ∅
  edges : Std.ExtTreeMap EdgeId Edge := ∅
  outgoing : Adjacency := ∅
  incoming : Adjacency := ∅
deriving DecidableEq

namespace Graph

def empty : Graph := {}

instance : Inhabited Graph := ⟨empty⟩

/-! ## Queries -/

def node? (graph : Graph) (id : NodeId) : Option Node := graph.nodes[id]?

def edge? (graph : Graph) (id : EdgeId) : Option Edge := graph.edges[id]?

def hasNode (graph : Graph) (id : NodeId) : Bool := graph.nodes.contains id

def nodeCount (graph : Graph) : Nat := graph.nodes.size

def edgeCount (graph : Graph) : Nat := graph.edges.size

/-- The nodes, ascending by id. -/
def nodeList (graph : Graph) : List Node := graph.nodes.toList.map Prod.snd

/-- The edges, ascending by id. -/
def edgeList (graph : Graph) : List Edge := graph.edges.toList.map Prod.snd

/-- The edges that leave a node, oldest first. -/
def outgoingEdges (graph : Graph) (id : NodeId) : List Edge :=
  (graph.outgoing[id]?.getD []).filterMap graph.edge?

/-- The edges that reach a node, oldest first. -/
def incomingEdges (graph : Graph) (id : NodeId) : List Edge :=
  (graph.incoming[id]?.getD []).filterMap graph.edge?

/-- The edge that feeds an input port. -/
def inEdge? (graph : Graph) (port : Port) : Option Edge :=
  (graph.incomingEdges port.node).find? fun edge => edge.target.index == port.index

/-- The edges that an output port feeds. -/
def outEdges (graph : Graph) (port : Port) : List Edge :=
  (graph.outgoingEdges port.node).filter fun edge => edge.source.index == port.index

/-- The output port that feeds an input port. -/
def producer? (graph : Graph) (port : Port) : Option Port := Edge.source <$> graph.inEdge? port

/-- The numbers of a node's connected input ports, ascending. -/
def connectedInputs (graph : Graph) (id : NodeId) : List UInt64 :=
  let indices := (graph.incomingEdges id).map fun edge => edge.target.index
  indices.mergeSort fun first second => first ≤ second

/-- The nodes of one kind, ascending by id. -/
def nodesOfKind (graph : Graph) (kind : NodeKind) : List Node :=
  graph.nodeList.filter fun node => node.kind == kind

/-! ## Unused ids -/

def numberedId (stem : String) (number : Nat) : NodeId := s!"{stem}_{number}"

/-- The first unused one of at most `attempts` numbered ids, or the one after them. -/
def firstUnused (graph : Graph) (stem : String) : (attempts : Nat) → (number : Nat) → NodeId
  | 0, number => numberedId stem number
  | attempts + 1, number =>
    if graph.hasNode (numberedId stem number) then firstUnused graph stem attempts (number + 1)
    else numberedId stem number

/-- The stem itself, or the stem with the least number that makes it unused. A graph has fewer
numbered ids than nodes, since the stem is one of them, so the attempts suffice. -/
def uniqueId (graph : Graph) (stem : String) : NodeId :=
  if graph.hasNode stem then graph.firstUnused stem graph.nodeCount 1 else stem

/-! ## Updates -/

def withNode (graph : Graph) (node : Node) : Graph :=
  { graph with
    nodes := graph.nodes.insert node.id node
    outgoing := graph.outgoing.insertIfNew node.id []
    incoming := graph.incoming.insertIfNew node.id [] }

def withEdge (graph : Graph) (edge : Edge) : Graph :=
  let append (ids : Option (List EdgeId)) := some (ids.getD [] ++ [edge.id])
  { graph with
    edges := graph.edges.insert edge.id edge
    outgoing := graph.outgoing.alter edge.source.node append
    incoming := graph.incoming.alter edge.target.node append }

def withoutEdge (graph : Graph) (edge : Edge) : Graph :=
  let remove (ids : List EdgeId) := ids.filter fun id => id != edge.id
  { graph with
    edges := graph.edges.erase edge.id
    outgoing := graph.outgoing.modify edge.source.node remove
    incoming := graph.incoming.modify edge.target.node remove }

/-- The graph without the edge of this id, if there is one. -/
def detach (graph : Graph) (id : EdgeId) : Graph :=
  match graph.edge? id with
  | some edge => graph.withoutEdge edge
  | none => graph

/-- The graph without a node and the edges at it. -/
def withoutNode (graph : Graph) (id : NodeId) : Graph :=
  let attached := graph.outgoing[id]?.getD [] ++ graph.incoming[id]?.getD []
  let isolated := attached.foldl detach
    { graph with outgoing := graph.outgoing.erase id, incoming := graph.incoming.erase id }
  { isolated with nodes := isolated.nodes.erase id }

/-- A node changed in anything but its id. -/
def modifyNode (graph : Graph) (id : NodeId) (change : Node → Node) : Graph :=
  { graph with nodes := graph.nodes.modify id fun node => { change node with id := node.id } }

end Graph
end OpGraph
