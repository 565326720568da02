import OpGraph.Edge.Basic

/-!
What can be wrong with a graph or with an edit of one.
-/

namespace OpGraph

inductive GraphError where
  | nodeNotFound (id : NodeId)
  | edgeNotFound (id : EdgeId)
  | danglingEdge (source target : NodeId)
  | duplicateNode (id : NodeId)
  | duplicateEdge (id : EdgeId)
  | inputPortOccupied (node : NodeId) (port : UInt64)
  | cycleDetected (id : NodeId)
  | invalidPortSpec (spec : String)
deriving DecidableEq

def GraphError.message : GraphError → String
  | nodeNotFound id => s!"node not found: {id}"
  | edgeNotFound id => s!"edge not found: {id.text}"
  | danglingEdge source target =>
    s!"dangling edge: source node {source} or target node {target} not in graph"
  | duplicateNode id => s!"duplicate node id: {id}"
  | duplicateEdge id => s!"duplicate edge id: {id.text}"
  | inputPortOccupied node port => s!"input port {port} of node {node} already has a producer"
  | cycleDetected id => s!"cycle detected involving node {id}"
  | invalidPortSpec spec => s!"invalid port spec '{spec}'"

end OpGraph
