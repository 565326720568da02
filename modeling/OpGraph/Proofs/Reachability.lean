import OpGraph.Proofs.Queries
import Mathlib.Logic.Relation

/-! Paths along the edges of a graph. An edge is told by the nodes at its ends, so in a well-formed graph a path can be
followed by the producers of input ports as well, and it never leaves the graph. -/

namespace OpGraph.Graph

def Feeds (graph : Graph) (producer consumer : NodeId) : Prop :=
  ∃ edge ∈ graph.edgeList, edge.source.node = producer ∧ edge.target.node = consumer

/-- A path, perhaps an empty one, leads from the first node to the second one. -/
abbrev Reaches (graph : Graph) : NodeId → NodeId → Prop := Relation.ReflTransGen graph.Feeds

theorem WellFormed.feeds_iff {graph : Graph} (wf : graph.WellFormed) {producer consumer : NodeId} :
    graph.Feeds producer consumer ↔ producer ∈ (graph.incomingEdges consumer).map fun edge => edge.source.node := by
  simp only [Feeds, List.mem_map, wf.mem_edgeList, wf.mem_incomingEdges]
  constructor
  · intro feeds
    obtain ⟨edge, stored, source, target⟩ := feeds
    exact ⟨edge, ⟨stored, target⟩, source⟩
  · intro listed
    obtain ⟨edge, ⟨stored, target⟩, source⟩ := listed
    exact ⟨edge, stored, source, target⟩

theorem WellFormed.feeds_of_producer? {graph : Graph} (wf : graph.WellFormed) {source target : Port}
    (fed : graph.producer? target = some source) : graph.Feeds source.node target.node := by
  obtain ⟨id, edge, stored, same, place⟩ := wf.producer?_eq_some_iff.mp fed
  subst same place
  exact ⟨edge, Graph.mem_edgeList.mpr ⟨id, stored⟩, rfl, rfl⟩

theorem WellFormed.exists_producer?_of_feeds {graph : Graph} (wf : graph.WellFormed) {producer consumer : NodeId}
    (feeds : graph.Feeds producer consumer) :
    ∃ index source, graph.producer? ⟨consumer, index⟩ = some source ∧ source.node = producer := by
  obtain ⟨edge, member, source, target⟩ := feeds
  subst source target
  exact ⟨edge.target.index, edge.source,
    wf.producer?_eq_some_iff.mpr ⟨edge.id, edge, wf.mem_edgeList.mp member, rfl, rfl⟩, rfl⟩

theorem WellFormed.hasNode_of_feeds {graph : Graph} (wf : graph.WellFormed) {producer consumer : NodeId}
    (feeds : graph.Feeds producer consumer) : graph.hasNode producer ∧ graph.hasNode consumer := by
  obtain ⟨edge, member, source, target⟩ := feeds
  subst source target
  exact wf.ends (wf.mem_edgeList.mp member)

theorem WellFormed.hasNode_of_reaches {graph : Graph} (wf : graph.WellFormed) {id target : NodeId}
    (present : graph.hasNode target) (reaches : graph.Reaches id target) : graph.hasNode id := by
  cases reaches.cases_head with
  | inl same => exact same ▸ present
  | inr first =>
    obtain ⟨_, feeds, _⟩ := first
    exact (wf.hasNode_of_feeds feeds).1

end OpGraph.Graph
