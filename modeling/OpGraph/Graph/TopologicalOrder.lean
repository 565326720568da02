import OpGraph.Graph.Basic
import OpGraph.Graph.Error

/-!
The canonical order of an acyclic graph in which every producer precedes its consumers. The nodes
that nothing holds back lie on a stack with the least id on top, and the one on top is placed next.
-/

namespace OpGraph.Graph

/-- For each node the number of its edges from nodes not yet placed. -/
abbrev Counters := Std.ExtTreeMap NodeId Int

/-- How far the search for the order is. -/
structure Sorting where
  counters : Counters
  /-- The nodes whose producers are all placed; its head is placed next. -/
  stack : List NodeId

/-- Puts an id in its place among ascending ones. -/
def insertId (id : NodeId) : List NodeId → List NodeId
  | [] => [id]
  | other :: ids => if id ≤ other then id :: other :: ids else other :: insertId id ids

def sortIds (ids : List NodeId) : List NodeId := ids.foldr insertId []

def inDegrees (graph : Graph) : Counters :=
  graph.nodes.map fun id _ => (graph.edgeList.filter fun edge => edge.target.node == id).length

def startSorting (graph : Graph) : Sorting :=
  let free := graph.inDegrees.toList.filter fun entry => entry.2 == 0
  { counters := graph.inDegrees, stack := sortIds (free.map Prod.fst) }

/-- An edge from a placed node no longer holds back its consumer, which is pushed if no other edge does. -/
def Sorting.release (sorting : Sorting) (edge : Edge) : Sorting :=
  let counters := sorting.counters.modify edge.target.node (· - 1)
  let freed := counters[edge.target.node]? == some 0
  { counters, stack := if freed then edge.target.node :: sorting.stack else sorting.stack }

/-- Releases all edges from a node that was taken from the stack. -/
def releaseAll (graph : Graph) (sorting : Sorting) (id : NodeId) : Sorting :=
  let released := (graph.outgoingEdges id).foldl Sorting.release sorting
  { released with stack := sortIds released.stack }

/-- Places up to `count` nodes; gives them in order, and how far the search is after them. -/
def place (graph : Graph) : (count : Nat) → Sorting → List NodeId × Sorting
  | 0, sorting => ([], sorting)
  | count + 1, sorting =>
    match sorting.stack with
    | [] => ([], sorting)
    | id :: stack =>
      let (order, last) := graph.place count (graph.releaseAll { sorting with stack } id)
      (id :: order, last)

/-- The order of all nodes. Where some are stuck, the error names the least of them that is held back. -/
def topologicalOrder (graph : Graph) : Except GraphError (List NodeId) :=
  let (order, last) := graph.place graph.nodeCount graph.startSorting
  if order.length = graph.nodeCount then .ok order
  else
    let held := last.counters.toList.find? fun entry => 0 < entry.2
    .error (.cycleDetected ((Prod.fst <$> held).getD ""))

def isAcyclic (graph : Graph) : Bool := graph.topologicalOrder.isOk

end OpGraph.Graph
