import OpGraph.Graph.Basic
import Std.Data.ExtTreeSet

/-!
The nodes from which given nodes can be reached, found by walking the edges backwards.
-/

namespace OpGraph.Graph

/-- Visits the nodes waiting in turn. A visited node lets its producers wait that were not seen. -/
def collectProducers (graph : Graph) :
    (visits : Nat) → (waiting : List NodeId) → (seen : Std.ExtTreeSet NodeId) → Std.ExtTreeSet NodeId
  | 0, _, seen => seen
  | _, [], seen => seen
  | visits + 1, id :: waiting, seen =>
    if seen.contains id then collectProducers graph visits waiting seen
    else
      let seen := seen.insert id
      let producers := (graph.incomingEdges id).map fun edge => edge.source.node
      let unseen := producers.filter fun producer => !seen.contains producer
      collectProducers graph visits (waiting ++ unseen) seen

/-- The nodes with a path, perhaps an empty one, to one of the targets. A node waits once for each
time it is a target and once for each edge that leaves it, which bounds the visits. -/
def reachableTo (graph : Graph) (targets : List NodeId) : Std.ExtTreeSet NodeId :=
  graph.collectProducers (targets.length + graph.edgeCount) (targets.filter graph.hasNode) ∅

end OpGraph.Graph
