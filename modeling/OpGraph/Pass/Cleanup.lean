import OpGraph.Graph.Edit
import OpGraph.Graph.Reachable
import OpGraph.Pass.Stats

/-!
Removal of the nodes that feed no result. A graph without results is left alone, since all of it
would be dead.
-/

namespace OpGraph.Graph

/-- The nodes from which no result can be reached, ascending; none in a graph without results. -/
def deadNodes (graph : Graph) : List NodeId :=
  let results := (graph.nodesOfKind .result).map Node.id
  if results.isEmpty then []
  else
    let live := graph.reachableTo results
    (graph.nodeList.map Node.id).filter fun id => !live.contains id

/-- Removes a dead node; counts the ends that its edges have at it. -/
def removeDead (id : NodeId) : Edit GraphError PassStats := do
  let graph ← get
  let edges := (graph.incoming[id]?.getD []).length + (graph.outgoing[id]?.getD []).length
  discard <| removeNode id
  return { nodesRemoved := 1, edgesRemoved := edges }

def removeDeadNodes : Edit GraphError PassStats := do
  let stats ← (← get).deadNodes.mapM removeDead
  return PassStats.total stats

end OpGraph.Graph
