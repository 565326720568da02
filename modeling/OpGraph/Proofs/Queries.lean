import OpGraph.Graph.Validate
import OpGraph.Proofs.Adjacency
import Mathlib.Data.List.Sort

/-! The queries of a well-formed graph answer from its edges: the adjacency lists they go through can
be forgotten. An input port has one producer at most, so the joined ports are a partial function from
inputs to outputs, and the later development works with that function alone. -/

namespace OpGraph

/-! ## Sorting -/

structure Sorts {α : Type} (le : α → α → Bool) : Prop where
  trans : ∀ first second third, le first second → le second third → le first third
  total : ∀ first second, (le first second || le second first) = true

namespace Sorts

variable {α : Type} {le : α → α → Bool}

theorem of_compare (cmp : α → α → Ordering) [Std.TransCmp cmp]
    (same : ∀ first second, le first second = (cmp first second).isLE) :
    Sorts le := by
  refine ⟨?_, ?_⟩
  · intro first second third below above
    rw [same] at below above ⊢
    exact Std.TransCmp.isLE_trans below above
  · intro first second
    rw [same, same, @Std.OrientedCmp.eq_swap _ cmp _ second first]
    cases cmp first second <;> rfl

theorem sorted (sorts : Sorts le) (items : List α) :
    (items.mergeSort le).Pairwise fun first second => le first second :=
  List.pairwise_mergeSort sorts.trans sorts.total items

/-- Sorting forgets the order that a list was in, where no two members tie. -/
theorem eq_of_perm (sorts : Sorts le) {items others : List α} (same : others.Perm items)
    (untied : ∀ first ∈ items, ∀ second ∈ items, le first second → le second first → first = second) :
    others.mergeSort le = items.mergeSort le := by
  have sortedOthers := List.mergeSort_perm others le
  have sortedItems := List.mergeSort_perm items le
  refine List.Perm.eq_of_pairwise ?_ (sorts.sorted others) (sorts.sorted items)
    ((sortedOthers.trans same).trans sortedItems.symm)
  intro first second member otherMember
  exact untied first (same.mem_iff.mp (sortedOthers.mem_iff.mp member)) second (sortedItems.mem_iff.mp otherMember)

end Sorts

theorem Node.sorts_id : Sorts fun first second : Node => decide (first.id ≤ second.id) where
  trans _ _ _ below above := decide_eq_true (String.le_trans (of_decide_eq_true below) (of_decide_eq_true above))
  total first second := by simpa using String.le_total first.id second.id

theorem Edge.sorts_targetFirst : Sorts Edge.targetFirst :=
  .of_compare (compareLex (compareOn Edge.target) (compareOn Edge.source)) fun _ _ => rfl

theorem Edge.target_eq_of_targetFirst {first second : Edge} (below : first.targetFirst second)
    (above : second.targetFirst first) : first.target = second.target := by
  have tie := @Std.OrientedCmp.isLE_antisymm _ (compareLex (compareOn Edge.target) (compareOn Edge.source)) _ first
    second below above
  exact Std.LawfulEqOrd.eq_of_compare (compareLex_eq_eq.mp tie).1

namespace Graph
open Std (ExtTreeMap)

def Joins (graph : Graph) (source target : Port) : Prop :=
  ∃ id edge, graph.edge? id = some edge ∧ edge.source = source ∧ edge.target = target

/-! ## Nodes and edges -/

theorem mem_edgeList {graph : Graph} {edge : Edge} :
    edge ∈ graph.edgeList ↔ ∃ id, graph.edge? id = some edge := by
  simp only [edgeList, List.mem_map, Prod.exists, ExtTreeMap.mem_toList_iff_getElem?_eq_some, edge?]
  simp

theorem length_edgeList (graph : Graph) : graph.edgeList.length = graph.edgeCount := by
  simp [edgeList, edgeCount]

namespace WellFormed

variable {graph : Graph}

theorem mem_edgeList (wf : graph.WellFormed) {edge : Edge} :
    edge ∈ graph.edgeList ↔ graph.edge? edge.id = some edge := by
  rw [Graph.mem_edgeList]
  constructor
  · intro ⟨id, stored⟩
    have own := wf.edge_id stored
    rwa [own]
  · exact fun stored => ⟨edge.id, stored⟩

theorem mem_nodeList (wf : graph.WellFormed) {node : Node} :
    node ∈ graph.nodeList ↔ graph.node? node.id = some node := by
  simp only [nodeList, List.mem_map, Prod.exists, ExtTreeMap.mem_toList_iff_getElem?_eq_some]
  constructor
  · rintro ⟨id, _, stored, rfl⟩
    have own := wf.node_id stored
    rwa [own]
  · exact fun stored => ⟨node.id, node, stored, rfl⟩

theorem exists_node (wf : graph.WellFormed) {id : NodeId} (present : graph.hasNode id) :
    ∃ node, graph.node? id = some node ∧ node.id = id := by
  obtain ⟨node, found⟩ := exists_node?_of_hasNode present
  exact ⟨node, found, wf.node_id found⟩

theorem map_id_edgeList (wf : graph.WellFormed) : graph.edgeList.map Edge.id = graph.edges.keys := by
  rw [edgeList, List.map_map, ← ExtTreeMap.map_fst_toList_eq_keys]
  apply List.map_congr_left
  intro ⟨id, edge⟩ member
  exact wf.edge_id (ExtTreeMap.mem_toList_iff_getElem?_eq_some.mp member)

theorem map_id_nodeList (wf : graph.WellFormed) : graph.nodeList.map Node.id = graph.nodes.keys := by
  rw [nodeList, List.map_map, ← ExtTreeMap.map_fst_toList_eq_keys]
  apply List.map_congr_left
  intro ⟨id, node⟩ member
  exact wf.node_id (ExtTreeMap.mem_toList_iff_getElem?_eq_some.mp member)

theorem mem_nodesOfKind (wf : graph.WellFormed) {kind : NodeKind} {node : Node} :
    node ∈ graph.nodesOfKind kind ↔ graph.node? node.id = some node ∧ node.kind = kind := by
  rw [nodesOfKind, List.mem_filter, wf.mem_nodeList, beq_iff_eq]

theorem nodeList_ascending (wf : graph.WellFormed) :
    graph.nodeList.Pairwise fun first second => first.id < second.id := by
  have keys : (graph.nodeList.map Node.id).Pairwise fun first second => compare first second = .lt := by
    rw [wf.map_id_nodeList]
    exact ExtTreeMap.ordered_keys
  exact (List.pairwise_map.mp keys).imp compareOfLessAndEq_eq_lt.mp

theorem nodesOfKind_ascending (wf : graph.WellFormed) (kind : NodeKind) :
    (graph.nodesOfKind kind).Pairwise fun first second => first.id < second.id := wf.nodeList_ascending.filter _

theorem nodup_nodesOfKind (wf : graph.WellFormed) (kind : NodeKind) :
    ((graph.nodesOfKind kind).map Node.id).Nodup := by
  rw [List.Nodup, List.pairwise_map]
  exact (wf.nodesOfKind_ascending kind).imp fun below => String.ne_of_lt below

theorem nodup_edgeList (wf : graph.WellFormed) : graph.edgeList.Nodup := by
  apply List.Nodup.of_map Edge.id
  rw [wf.map_id_edgeList]
  exact ExtTreeMap.nodup_keys

theorem nodup_targets (wf : graph.WellFormed) : (graph.edgeList.map Edge.target).Nodup := by
  refine List.Nodup.map_on (fun first listed second alsoListed same => ?_) wf.nodup_edgeList
  have stored := wf.mem_edgeList.mp listed
  have alsoStored := wf.mem_edgeList.mp alsoListed
  rw [wf.target_unique stored alsoStored same, alsoStored] at stored
  exact (Option.some.inj stored).symm

end WellFormed

/-! ## Edges at a node -/

namespace Indexes

variable {graph : Graph} {table : Adjacency} {endOf : Edge → NodeId}

theorem mem_edges (indexes : Indexes graph table endOf) (ownIds : graph.OwnIds)
    (present : ∀ {id edge}, graph.edge? id = some edge → graph.hasNode (endOf edge)) {id : NodeId} {edge : Edge} :
    edge ∈ (table[id]?.getD []).filterMap graph.edge? ↔
      graph.edge? edge.id = some edge ∧ endOf edge = id := by
  rw [List.mem_filterMap]
  constructor
  · intro ⟨edgeId, member, stored⟩
    have own := ownIds stored
    subst own
    refine ⟨stored, ?_⟩
    cases found : table[id]? with
    | none => simp [found] at member
    | some ids =>
      rw [found, Option.getD_some, indexes.mem found] at member
      obtain ⟨other, known, place⟩ := member
      rw [stored] at known
      cases known
      exact place
  · rintro ⟨stored, rfl⟩
    obtain ⟨ids, found⟩ := indexes.exists_list (present stored)
    refine ⟨edge.id, ?_, stored⟩
    rw [found, Option.getD_some]
    exact (indexes.mem found).mpr ⟨edge, stored, rfl⟩

theorem map_id_edges (indexes : Indexes graph table endOf) (ownIds : graph.OwnIds) (id : NodeId) :
    ((table[id]?.getD []).filterMap graph.edge?).map Edge.id = table[id]?.getD [] := by
  cases found : table[id]? with
  | none => rfl
  | some ids =>
    rw [Option.getD_some, List.map_filterMap]
    have stored : ∀ edgeId ∈ ids, (graph.edge? edgeId).map Edge.id = some edgeId := by
      intro edgeId member
      obtain ⟨edge, known, _⟩ := (indexes.mem found).mp member
      rw [known, Option.map_some, ownIds known]
    rw [List.filterMap_congr stored, List.filterMap_some]

theorem nodup_edges (indexes : Indexes graph table endOf) (ownIds : graph.OwnIds) (id : NodeId) :
    ((table[id]?.getD []).filterMap graph.edge?).Nodup := by
  apply List.Nodup.of_map Edge.id
  rw [indexes.map_id_edges ownIds]
  cases found : table[id]? with
  | none => exact List.nodup_nil
  | some ids => exact indexes.nodup found

/-- Up to order, what the table lists at a node is what a search through all edges finds. -/
theorem perm_edges (indexes : Indexes graph table endOf) (wf : graph.WellFormed)
    (present : ∀ {id edge}, graph.edge? id = some edge → graph.hasNode (endOf edge)) (id : NodeId) :
    ((table[id]?.getD []).filterMap graph.edge?).Perm (graph.edgeList.filter fun edge => endOf edge == id) := by
  rw [List.perm_ext_iff_of_nodup (indexes.nodup_edges wf.edge_id id) (wf.nodup_edgeList.filter _)]
  intro edge
  rw [indexes.mem_edges wf.edge_id present, List.mem_filter, wf.mem_edgeList, beq_iff_eq]

end Indexes

namespace WellFormed

variable {graph : Graph}

theorem mem_outgoingEdges (wf : graph.WellFormed) {id : NodeId} {edge : Edge} :
    edge ∈ graph.outgoingEdges id ↔ graph.edge? edge.id = some edge ∧ edge.source.node = id :=
  wf.indexes_outgoing.mem_edges wf.edge_id wf.hasNode_source

theorem mem_incomingEdges (wf : graph.WellFormed) {id : NodeId} {edge : Edge} :
    edge ∈ graph.incomingEdges id ↔ graph.edge? edge.id = some edge ∧ edge.target.node = id :=
  wf.indexes_incoming.mem_edges wf.edge_id wf.hasNode_target

theorem nodup_outgoingEdges (wf : graph.WellFormed) (id : NodeId) : (graph.outgoingEdges id).Nodup :=
  wf.indexes_outgoing.nodup_edges wf.edge_id id

theorem nodup_incomingEdges (wf : graph.WellFormed) (id : NodeId) : (graph.incomingEdges id).Nodup :=
  wf.indexes_incoming.nodup_edges wf.edge_id id

theorem perm_outgoingEdges (wf : graph.WellFormed) (id : NodeId) :
    (graph.outgoingEdges id).Perm (graph.edgeList.filter fun edge => edge.source.node == id) :=
  wf.indexes_outgoing.perm_edges wf wf.hasNode_source id

theorem perm_incomingEdges (wf : graph.WellFormed) (id : NodeId) :
    (graph.incomingEdges id).Perm (graph.edgeList.filter fun edge => edge.target.node == id) :=
  wf.indexes_incoming.perm_edges wf wf.hasNode_target id

theorem length_outgoing (wf : graph.WellFormed) (id : NodeId) :
    (graph.outgoing[id]?.getD []).length = (graph.outgoingEdges id).length := by
  rw [← wf.indexes_outgoing.map_id_edges wf.edge_id id, List.length_map]
  rfl

theorem length_incoming (wf : graph.WellFormed) (id : NodeId) :
    (graph.incoming[id]?.getD []).length = (graph.incomingEdges id).length := by
  rw [← wf.indexes_incoming.map_id_edges wf.edge_id id, List.length_map]
  rfl

/-! ## Ports -/

/-- Each edge is stored under its own id, so the ids need not be named. -/
theorem joins_iff (wf : graph.WellFormed) {source target : Port} :
    graph.Joins source target ↔ ∃ edge, graph.edge? edge.id = some edge ∧ edge.source = source ∧
      edge.target = target := by
  constructor
  · intro joins
    obtain ⟨id, edge, stored, ends⟩ := joins
    have own := wf.edge_id stored
    exact ⟨edge, own ▸ stored, ends⟩
  · intro listed
    obtain ⟨edge, stored, ends⟩ := listed
    exact ⟨edge.id, edge, stored, ends⟩

theorem inEdge?_eq_some_iff (wf : graph.WellFormed) {port : Port} {edge : Edge} :
    graph.inEdge? port = some edge ↔ graph.edge? edge.id = some edge ∧ edge.target = port := by
  constructor
  · intro found
    have index := List.find?_some found
    obtain ⟨stored, place⟩ := wf.mem_incomingEdges.mp (List.mem_of_find?_eq_some found)
    exact ⟨stored, Port.ext place (beq_iff_eq.mp index)⟩
  · rintro ⟨stored, rfl⟩
    have listed := wf.mem_incomingEdges.mpr ⟨stored, rfl⟩
    have occupied : (graph.inEdge? edge.target).isSome := by
      rw [inEdge?, List.find?_isSome]
      exact ⟨edge, listed, beq_self_eq_true _⟩
    obtain ⟨other, found⟩ := Option.isSome_iff_exists.mp occupied
    have index := List.find?_some found
    obtain ⟨known, place⟩ := wf.mem_incomingEdges.mp (List.mem_of_find?_eq_some found)
    have target : other.target = edge.target := Port.ext place (beq_iff_eq.mp index)
    have same := wf.target_unique known stored target
    rw [same, stored] at known
    rw [found, known]

theorem producer?_eq_some_iff (wf : graph.WellFormed) {source target : Port} :
    graph.producer? target = some source ↔ graph.Joins source target := by
  simp only [producer?, Option.map_eq_map, Option.map_eq_some_iff, wf.inEdge?_eq_some_iff, wf.joins_iff]
  exact exists_congr fun edge => and_right_comm.trans and_assoc

theorem mem_outEdges (wf : graph.WellFormed) {port : Port} {edge : Edge} :
    edge ∈ graph.outEdges port ↔ graph.edge? edge.id = some edge ∧ edge.source = port := by
  rw [outEdges, List.mem_filter, wf.mem_outgoingEdges, beq_iff_eq, and_assoc, Port.ext_iff]

theorem nodup_outEdges (wf : graph.WellFormed) (port : Port) : (graph.outEdges port).Nodup :=
  (wf.nodup_outgoingEdges port.node).filter _

theorem mem_connectedInputs (wf : graph.WellFormed) {id : NodeId} {index : UInt64} :
    index ∈ graph.connectedInputs id ↔ ∃ source, graph.Joins source ⟨id, index⟩ := by
  simp only [connectedInputs, List.mem_mergeSort, List.mem_map, wf.mem_incomingEdges, wf.joins_iff]
  constructor
  · rintro ⟨edge, ⟨stored, rfl⟩, rfl⟩
    exact ⟨edge.source, edge, stored, rfl, rfl⟩
  · rintro ⟨source, edge, stored, rfl, target⟩
    exact ⟨edge, ⟨stored, by rw [target]⟩, by rw [target]⟩

theorem isSome_producer? (wf : graph.WellFormed) {id : NodeId} {index : UInt64} :
    (graph.producer? ⟨id, index⟩).isSome ↔ index ∈ graph.connectedInputs id := by
  simp [wf.mem_connectedInputs, Option.isSome_iff_exists, wf.producer?_eq_some_iff]

theorem connectedInputs_ascending (wf : graph.WellFormed) (id : NodeId) :
    (graph.connectedInputs id).Pairwise (· < ·) := by
  have distinct : ((graph.incomingEdges id).map fun edge => edge.target.index).Nodup := by
    refine List.Nodup.map_on ?_ (wf.nodup_incomingEdges id)
    intro first member second other same
    obtain ⟨stored, place⟩ := wf.mem_incomingEdges.mp member
    obtain ⟨known, otherPlace⟩ := wf.mem_incomingEdges.mp other
    have ids := wf.target_unique stored known (Port.ext (place.trans otherPlace.symm) same)
    rw [ids, known] at stored
    exact (Option.some.inj stored).symm
  have sorted : (graph.connectedInputs id).Pairwise (· ≤ ·) := by
    have ordered := @List.pairwise_mergeSort _ (fun first second : UInt64 => decide (first ≤ second))
      (by simpa using fun _ _ _ => UInt64.le_trans) (by simpa using UInt64.le_total)
      ((graph.incomingEdges id).map fun edge => edge.target.index)
    exact ordered.imp of_decide_eq_true
  have nodup : (graph.connectedInputs id).Nodup := (List.mergeSort_perm _ _).nodup_iff.mpr distinct
  exact (sorted.and nodup).imp fun ⟨below, different⟩ => UInt64.lt_of_le_of_ne below different

end WellFormed

end Graph
end OpGraph
