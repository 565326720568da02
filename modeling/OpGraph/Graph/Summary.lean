import OpGraph.Graph.TopologicalOrder
import OpGraph.Graph.Validate

/-!
What a graph is made of, in numbers.
-/

namespace OpGraph

structure GraphSummary where
  nodes : Nat
  edges : Nat
  /-- The number of nodes by the text of their kind. -/
  kinds : Std.ExtTreeMap String Nat
  /-- The nodes that the intermediate representation has no operation for, ascending. -/
  pending : List NodeId
  /-- Whether the graph is well-formed and acyclic. -/
  isValid : Bool

def Graph.summary (graph : Graph) : GraphSummary where
  nodes := graph.nodeCount
  edges := graph.edgeCount
  kinds := graph.nodeList.foldl (fun kinds node =>
    kinds.alter node.kind.display fun count => some (count.getD 0 + 1)) ∅
  pending := (graph.nodeList.filter fun node => !node.kind.isIrOp).map Node.id
  isValid := graph.isValid && graph.isAcyclic

end OpGraph
