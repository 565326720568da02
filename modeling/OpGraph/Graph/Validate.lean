import OpGraph.Graph.Basic
import OpGraph.Graph.Error

/-!
Validation of a graph that may have come from anywhere: edges with a missing end, then input ports
with more than one producer.
-/

namespace OpGraph.Graph

def danglingErrors (graph : Graph) : List GraphError :=
  graph.edgeList.filterMap fun edge =>
    if graph.hasNode edge.source.node && graph.hasNode edge.target.node then none
    else some (.danglingEdge edge.source.node edge.target.node)

/-- An error for each edge whose input port is also that of the edge before it. -/
def occupiedErrors : List Edge → List GraphError
  | first :: second :: rest =>
    let others := occupiedErrors (second :: rest)
    if first.target = second.target then
      .inputPortOccupied second.target.node second.target.index :: others
    else others
  | _ => []

/-- All that is wrong with the ends of the edges. -/
def validationErrors (graph : Graph) : List GraphError :=
  graph.danglingErrors ++ occupiedErrors (graph.edgeList.mergeSort Edge.targetFirst)

def isValid (graph : Graph) : Bool := graph.validationErrors.isEmpty

end OpGraph.Graph
