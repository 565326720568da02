import OpGraph.Graph.Basic

/-!
Well-formed graphs: nodes and edges are stored under their own ids, edges end at nodes, no input
port has two producers, and the adjacency lists say exactly what the edges say.
-/

namespace OpGraph.Graph

structure WellFormed (graph : Graph) : Prop where
  node_id : ∀ {id node}, graph.node? id = some node → node.id = id
  edge_id : ∀ {id edge}, graph.edge? id = some edge → edge.id = id
  hasNode_source : ∀ {id edge}, graph.edge? id = some edge → graph.hasNode edge.source.node
  hasNode_target : ∀ {id edge}, graph.edge? id = some edge → graph.hasNode edge.target.node
  target_unique : ∀ {id edge other otherEdge}, graph.edge? id = some edge →
    graph.edge? other = some otherEdge → edge.target = otherEdge.target → id = other
  outgoing_keys : ∀ {id : NodeId}, id ∈ graph.outgoing ↔ graph.hasNode id
  incoming_keys : ∀ {id : NodeId}, id ∈ graph.incoming ↔ graph.hasNode id
  outgoing_nodup : ∀ {id : NodeId} {ids : List EdgeId}, graph.outgoing[id]? = some ids → ids.Nodup
  incoming_nodup : ∀ {id : NodeId} {ids : List EdgeId}, graph.incoming[id]? = some ids → ids.Nodup
  mem_outgoing : ∀ {id : NodeId} {ids : List EdgeId} {edgeId : EdgeId}, graph.outgoing[id]? = some ids →
    (edgeId ∈ ids ↔ ∃ edge, graph.edge? edgeId = some edge ∧ edge.source.node = id)
  mem_incoming : ∀ {id : NodeId} {ids : List EdgeId} {edgeId : EdgeId}, graph.incoming[id]? = some ids →
    (edgeId ∈ ids ↔ ∃ edge, graph.edge? edgeId = some edge ∧ edge.target.node = id)

theorem wellFormed_empty : WellFormed empty := by
  constructor <;> simp [empty, node?, edge?, hasNode]

end OpGraph.Graph
