import OpGraph.Proofs.Updates
import Mathlib.Data.List.Nodup

/-! Well-formedness survives every update. Both adjacency lists index the edges by one of their ends,
so each update is checked once for an index and an end, and used for either. -/

namespace OpGraph.Graph
open Std (ExtTreeMap)

/-- For every node the table lists, without repetition, the edges that have it at one end. -/
structure Indexes (graph : Graph) (table : Adjacency) (endOf : Edge → NodeId) : Prop where
  keys : ∀ {id : NodeId}, id ∈ table ↔ graph.hasNode id
  nodup : ∀ {id : NodeId} {ids : List EdgeId}, table[id]? = some ids → ids.Nodup
  mem : ∀ {id : NodeId} {ids : List EdgeId} {edgeId : EdgeId}, table[id]? = some ids →
    (edgeId ∈ ids ↔ ∃ edge, graph.edge? edgeId = some edge ∧ endOf edge = id)

namespace Indexes

variable {graph : Graph} {table : Adjacency} {endOf : Edge → NodeId}

theorem lists (indexes : Indexes graph table endOf) : graph.Lists table endOf :=
  fun found member => (indexes.mem found).mp member

theorem exists_list (indexes : Indexes graph table endOf) {id : NodeId} (present : graph.hasNode id) :
    ∃ ids, table[id]? = some ids := by
  have key := indexes.keys.mpr present
  rwa [ExtTreeMap.mem_iff_isSome_getElem?, Option.isSome_iff_exists] at key

theorem withNode (indexes : Indexes graph table endOf) {node : Node} (unused : ¬ graph.hasNode node.id)
    (ends : ∀ {id edge}, graph.edge? id = some edge → graph.hasNode (endOf edge)) :
    Indexes (graph.withNode node) (table.insertIfNew node.id []) endOf := by
  have lookup {id : NodeId} {ids : List EdgeId} (found : (table.insertIfNew node.id [])[id]? = some ids) :
      (node.id = id ∧ ids = []) ∨ table[id]? = some ids := by
    rw [ExtTreeMap.getElem?_insertIfNew] at found
    split at found
    next fresh => exact Or.inl ⟨Std.compare_eq_iff_eq.mp fresh.1, (Option.some.inj found).symm⟩
    next => exact Or.inr found
  refine ⟨?_, ?_, ?_⟩
  · intro id
    rw [ExtTreeMap.mem_insertIfNew, Std.compare_eq_iff_eq, indexes.keys, hasNode_withNode]
    simp
  · intro id ids found
    rcases lookup found with ⟨_, rfl⟩ | listed
    · exact List.nodup_nil
    · exact indexes.nodup listed
  · intro id ids edgeId found
    rcases lookup found with ⟨rfl, rfl⟩ | listed
    · simp only [List.not_mem_nil, false_iff, edge?_withNode, not_exists, not_and]
      intro edge stored place
      exact unused (place ▸ ends stored)
    · exact indexes.mem listed

theorem not_mem_of_unused (indexes : Indexes graph table endOf) {edgeId : EdgeId} (unused : graph.edge? edgeId = none)
    {id : NodeId} {ids : List EdgeId} (found : table[id]? = some ids) : edgeId ∉ ids := by
  intro member
  obtain ⟨other, stored, _⟩ := (indexes.mem found).mp member
  rw [unused] at stored
  cases stored

theorem withEdge (indexes : Indexes graph table endOf) {edge : Edge}
    (unused : graph.edge? edge.id = none) (present : graph.hasNode (endOf edge)) :
    Indexes (graph.withEdge edge)
      (table.alter (endOf edge) fun ids => some (ids.getD [] ++ [edge.id])) endOf := by
  obtain ⟨known, listed⟩ := indexes.exists_list present
  have lookup {id : NodeId} {ids : List EdgeId}
      (found : (table.alter (endOf edge) fun ids => some (ids.getD [] ++ [edge.id]))[id]? = some ids) :
      (endOf edge = id ∧ ids = known ++ [edge.id]) ∨ (endOf edge ≠ id ∧ table[id]? = some ids) := by
    simp only [ExtTreeMap.getElem?_alter, Std.compare_eq_iff_eq, listed, Option.getD_some] at found
    split at found
    next same => exact Or.inl ⟨same, (Option.some.inj found).symm⟩
    next different => exact Or.inr ⟨different, found⟩
  refine ⟨?_, ?_, ?_⟩
  · intro id
    simp only [ExtTreeMap.mem_alter, hasNode_withEdge, Std.compare_eq_iff_eq, Option.isSome_some]
    split
    next same => simp [← same, present]
    next => exact indexes.keys
  · intro id ids found
    rcases lookup found with ⟨rfl, rfl⟩ | ⟨_, listed⟩
    · exact List.nodup_append.mpr ⟨indexes.nodup listed, List.nodup_singleton _, by
        intro first member second single same
        rw [List.mem_singleton.mp single] at same
        exact indexes.not_mem_of_unused unused listed (same ▸ member)⟩
    · exact indexes.nodup listed
  · intro id ids edgeId found
    simp only [edge?_withEdge]
    rcases lookup found with ⟨rfl, rfl⟩ | ⟨elsewhere, other⟩
    · rw [List.mem_append, List.mem_singleton, indexes.mem listed]
      by_cases same : edge.id = edgeId
      · simp [same]
      · simp [same, Ne.symm same]
    · rw [indexes.mem other]
      by_cases same : edge.id = edgeId
      · subst same
        simp [unused, elsewhere]
      · simp [same]

theorem withoutEdge (indexes : Indexes graph table endOf) {edge : Edge}
    (stored : graph.edge? edge.id = some edge) :
    Indexes (graph.withoutEdge edge)
      (table.modify (endOf edge) fun ids => ids.filter fun id => id != edge.id) endOf := by
  have lookup {id : NodeId} {ids : List EdgeId}
      (found : (table.modify (endOf edge) fun ids => ids.filter fun id => id != edge.id)[id]? = some ids) :
      (endOf edge = id ∧ ∃ known, table[id]? = some known ∧ ids = known.filter fun id => id != edge.id) ∨
        (endOf edge ≠ id ∧ table[id]? = some ids) := by
    simp only [ExtTreeMap.getElem?_modify, Std.compare_eq_iff_eq] at found
    split at found
    next same =>
      obtain ⟨known, listed, rfl⟩ := Option.map_eq_some_iff.mp found
      exact Or.inl ⟨same, known, same ▸ listed, rfl⟩
    next different => exact Or.inr ⟨different, found⟩
  refine ⟨?_, ?_, ?_⟩
  · intro id
    rw [ExtTreeMap.mem_modify, hasNode_withoutEdge]
    exact indexes.keys
  · intro id ids found
    rcases lookup found with ⟨_, known, listed, rfl⟩ | ⟨_, listed⟩
    · exact (indexes.nodup listed).filter _
    · exact indexes.nodup listed
  · intro id ids edgeId found
    simp only [edge?_withoutEdge]
    rcases lookup found with ⟨_, known, listed, rfl⟩ | ⟨elsewhere, listed⟩
    · rw [List.mem_filter, indexes.mem listed]
      by_cases same : edge.id = edgeId
      · simp [same]
      · simp [same, Ne.symm same]
    · rw [indexes.mem listed]
      by_cases same : edge.id = edgeId
      · subst same
        simp [stored, elsewhere]
      · simp [same]

theorem modifyNode (indexes : Indexes graph table endOf) (id : NodeId) (change : Node → Node) :
    Indexes (graph.modifyNode id change) table endOf :=
  ⟨by intro other; rw [hasNode_modifyNode]; exact indexes.keys, indexes.nodup, indexes.mem⟩

end Indexes

namespace WellFormed

variable {graph : Graph}

theorem indexes_outgoing (wf : graph.WellFormed) :
    graph.Indexes graph.outgoing fun edge => edge.source.node :=
  ⟨wf.outgoing_keys, wf.outgoing_nodup, wf.mem_outgoing⟩

theorem indexes_incoming (wf : graph.WellFormed) :
    graph.Indexes graph.incoming fun edge => edge.target.node :=
  ⟨wf.incoming_keys, wf.incoming_nodup, wf.mem_incoming⟩

theorem consistent (wf : graph.WellFormed) : graph.Consistent :=
  ⟨wf.edge_id, wf.indexes_outgoing.lists, wf.indexes_incoming.lists⟩

theorem of_indexes (nodeIds : ∀ {id node}, graph.node? id = some node → node.id = id)
    (edgeIds : graph.OwnIds)
    (targets : ∀ {id edge other otherEdge}, graph.edge? id = some edge →
      graph.edge? other = some otherEdge → edge.target = otherEdge.target → id = other)
    (outgoing : graph.Indexes graph.outgoing fun edge => edge.source.node)
    (incoming : graph.Indexes graph.incoming fun edge => edge.target.node)
    (ends : ∀ {id edge}, graph.edge? id = some edge →
      graph.hasNode edge.source.node ∧ graph.hasNode edge.target.node) : graph.WellFormed where
  node_id := nodeIds
  edge_id := edgeIds
  hasNode_source stored := (ends stored).1
  hasNode_target stored := (ends stored).2
  target_unique := targets
  outgoing_keys := outgoing.keys
  incoming_keys := incoming.keys
  outgoing_nodup := outgoing.nodup
  incoming_nodup := incoming.nodup
  mem_outgoing := outgoing.mem
  mem_incoming := incoming.mem

theorem ends (wf : graph.WellFormed) {id : EdgeId} {edge : Edge} (stored : graph.edge? id = some edge) :
    graph.hasNode edge.source.node ∧ graph.hasNode edge.target.node :=
  ⟨wf.hasNode_source stored, wf.hasNode_target stored⟩

/-! ## Updates -/

theorem withNode (wf : graph.WellFormed) {node : Node} (unused : ¬ graph.hasNode node.id) :
    (graph.withNode node).WellFormed := by
  refine of_indexes ?_ wf.edge_id wf.target_unique (wf.indexes_outgoing.withNode unused wf.hasNode_source)
    (wf.indexes_incoming.withNode unused wf.hasNode_target) ?_
  · intro id other found
    rw [node?_withNode] at found
    split at found
    next same => cases found; exact same
    next => exact wf.node_id found
  · intro id edge stored
    simp [hasNode_withNode, wf.ends stored]

theorem withEdge (wf : graph.WellFormed) {edge : Edge} (unused : graph.edge? edge.id = none)
    (source : graph.hasNode edge.source.node) (target : graph.hasNode edge.target.node)
    (free : ∀ {id other}, graph.edge? id = some other → other.target ≠ edge.target) :
    (graph.withEdge edge).WellFormed := by
  have lookup {id : EdgeId} {other : Edge} (stored : (graph.withEdge edge).edge? id = some other) :
      (edge.id = id ∧ edge = other) ∨ graph.edge? id = some other := by
    rw [edge?_withEdge] at stored
    split at stored
    next same => exact Or.inl ⟨same, Option.some.inj stored⟩
    next => exact Or.inr stored
  refine of_indexes wf.node_id ?_ ?_ (wf.indexes_outgoing.withEdge unused source)
    (wf.indexes_incoming.withEdge unused target) ?_
  · intro id other stored
    rcases lookup stored with ⟨same, rfl⟩ | old
    · exact same
    · exact wf.edge_id old
  · intro id first other second stored otherStored same
    rcases lookup stored with ⟨rfl, rfl⟩ | old <;> rcases lookup otherStored with ⟨rfl, rfl⟩ | otherOld
    · rfl
    · exact absurd same.symm (free otherOld)
    · exact absurd same (free old)
    · exact wf.target_unique old otherOld same
  · intro id other stored
    rcases lookup stored with ⟨_, rfl⟩ | old
    · exact ⟨source, target⟩
    · exact wf.ends old

theorem withoutEdge (wf : graph.WellFormed) {edge : Edge} (stored : graph.edge? edge.id = some edge) :
    (graph.withoutEdge edge).WellFormed := by
  have lookup {id : EdgeId} {other : Edge} (found : (graph.withoutEdge edge).edge? id = some other) :
      graph.edge? id = some other := by
    rw [edge?_withoutEdge] at found
    split at found
    · cases found
    · exact found
  exact of_indexes wf.node_id (fun found => wf.edge_id (lookup found))
    (fun found other => wf.target_unique (lookup found) (lookup other))
    (wf.indexes_outgoing.withoutEdge stored) (wf.indexes_incoming.withoutEdge stored)
    (fun found => wf.ends (lookup found))

theorem modifyNode (wf : graph.WellFormed) (id : NodeId) (change : Node → Node) :
    (graph.modifyNode id change).WellFormed := by
  refine of_indexes ?_ wf.edge_id wf.target_unique (wf.indexes_outgoing.modifyNode id change)
    (wf.indexes_incoming.modifyNode id change) ?_
  · intro other node found
    rw [node?_modifyNode] at found
    split at found
    · obtain ⟨old, stored, rfl⟩ := Option.map_eq_some_iff.mp found
      have own : old.id = other := wf.node_id stored
      exact own
    · exact wf.node_id found
  · intro other edge stored
    simpa using wf.ends stored

end WellFormed

/-! ## Removal of a node -/

def attached (graph : Graph) (id : NodeId) : List EdgeId :=
  graph.outgoing[id]?.getD [] ++ graph.incoming[id]?.getD []

def isolate (graph : Graph) (id : NodeId) : Graph :=
  { graph with outgoing := graph.outgoing.erase id, incoming := graph.incoming.erase id }

private theorem lists_erase {graph : Graph} {table : Adjacency} {endOf : Edge → NodeId}
    (lists : graph.Lists table endOf) (id : NodeId) : (graph.isolate id).Lists (table.erase id) endOf := by
  intro other ids edgeId found member
  rw [ExtTreeMap.getElem?_erase] at found
  split at found
  · cases found
  · exact lists found member

theorem Consistent.isolate {graph : Graph} (consistent : graph.Consistent) (id : NodeId) :
    (graph.isolate id).Consistent :=
  ⟨consistent.ownIds, lists_erase consistent.outgoing id, lists_erase consistent.incoming id⟩

namespace WellFormed

variable {graph : Graph}

theorem withoutNode_eq (wf : graph.WellFormed) (id : NodeId) :
    graph.withoutNode id =
      { (graph.isolate id).keepEdges (fun edgeId => !(graph.attached id).contains edgeId) with
        nodes := graph.nodes.erase id } := by
  have detached := foldl_detach (wf.consistent.isolate id) (graph.attached id)
  unfold withoutNode
  simp only [attached, Graph.isolate] at detached ⊢
  rw [detached]
  rfl

theorem node?_withoutNode (wf : graph.WellFormed) (id other : NodeId) :
    (graph.withoutNode id).node? other = if id = other then none else graph.node? other := by
  rw [wf.withoutNode_eq]
  simp [node?, ExtTreeMap.getElem?_erase]

theorem hasNode_withoutNode (wf : graph.WellFormed) (id other : NodeId) :
    (graph.withoutNode id).hasNode other = (decide (id ≠ other) && graph.hasNode other) := by
  simp only [hasNode_eq_isSome, wf.node?_withoutNode]
  split <;> simp_all

private theorem edge?_withoutNode_eq_ite (wf : graph.WellFormed) (id : NodeId) (edgeId : EdgeId) :
    (graph.withoutNode id).edge? edgeId =
      if !(graph.attached id).contains edgeId then graph.edge? edgeId else none := by
  rw [wf.withoutNode_eq]
  exact edge?_keepEdges (graph.isolate id) _ edgeId

theorem mem_attached (wf : graph.WellFormed) {id : NodeId} {edgeId : EdgeId} {edge : Edge}
    (stored : graph.edge? edgeId = some edge) :
    edgeId ∈ graph.attached id ↔ edge.source.node = id ∨ edge.target.node = id := by
  have listed {table : Adjacency} {endOf : Edge → NodeId} (indexes : graph.Indexes table endOf)
      (present : graph.hasNode (endOf edge)) : edgeId ∈ table[id]?.getD [] ↔ endOf edge = id := by
    cases found : table[id]? with
    | none =>
      simp only [Option.getD_none, List.not_mem_nil, false_iff]
      rintro rfl
      obtain ⟨ids, known⟩ := indexes.exists_list present
      rw [found] at known
      cases known
    | some ids =>
      rw [Option.getD_some, indexes.mem found, stored]
      simp
  rw [attached, List.mem_append, listed wf.indexes_outgoing (wf.hasNode_source stored),
    listed wf.indexes_incoming (wf.hasNode_target stored)]

theorem edge?_withoutNode (wf : graph.WellFormed) (id : NodeId) (edgeId : EdgeId) :
    (graph.withoutNode id).edge? edgeId =
      (graph.edge? edgeId).filter fun edge => edge.source.node != id && edge.target.node != id := by
  rw [wf.edge?_withoutNode_eq_ite]
  cases stored : graph.edge? edgeId with
  | none => simp
  | some edge =>
    have touches : edgeId ∈ graph.attached id ↔ edge.source.node = id ∨ edge.target.node = id := wf.mem_attached stored
    by_cases member : edgeId ∈ graph.attached id
    · have ends := touches.mp member
      rcases ends with same | same <;> simp [Option.filter, member, same]
    · have ends : ¬ (edge.source.node = id ∨ edge.target.node = id) := fun place => member (touches.mpr place)
      rw [not_or] at ends
      simp [Option.filter, member, ends.1, ends.2]

private theorem indexes_withoutNode (wf : graph.WellFormed) {table : Adjacency} {endOf : Edge → NodeId}
    (indexes : graph.Indexes table endOf) (id : NodeId) :
    (graph.withoutNode id).Indexes
      ((table.erase id).map fun _ ids => ids.filter fun edgeId => !(graph.attached id).contains edgeId)
      endOf := by
  have lookup {other : NodeId} {ids : List EdgeId}
      (found : ((table.erase id).map fun _ ids =>
        ids.filter fun edgeId => !(graph.attached id).contains edgeId)[other]? = some ids) :
      ∃ all, table[other]? = some all ∧
        ids = all.filter fun edgeId => !(graph.attached id).contains edgeId := by
    rw [ExtTreeMap.getElem?_map, Option.map_eq_some_iff] at found
    obtain ⟨all, listed, rfl⟩ := found
    rw [ExtTreeMap.getElem?_erase] at listed
    split at listed
    · cases listed
    · exact ⟨all, listed, rfl⟩
  refine ⟨?_, ?_, ?_⟩
  · intro other
    rw [ExtTreeMap.mem_map, ExtTreeMap.mem_erase, indexes.keys, wf.hasNode_withoutNode]
    simp
  · intro other ids found
    obtain ⟨all, listed, rfl⟩ := lookup found
    exact (indexes.nodup listed).filter _
  · intro other ids edgeId found
    obtain ⟨all, listed, rfl⟩ := lookup found
    rw [List.mem_filter, indexes.mem listed, wf.edge?_withoutNode_eq_ite]
    by_cases member : edgeId ∈ graph.attached id <;> simp [member]

theorem withoutNode (wf : graph.WellFormed) (id : NodeId) : (graph.withoutNode id).WellFormed := by
  have lookup {edgeId : EdgeId} {edge : Edge} (found : (graph.withoutNode id).edge? edgeId = some edge) :
      graph.edge? edgeId = some edge ∧ edge.source.node ≠ id ∧ edge.target.node ≠ id := by
    rw [wf.edge?_withoutNode, Option.filter_eq_some_iff] at found
    simpa using found
  have outgoing := wf.indexes_withoutNode wf.indexes_outgoing id
  have incoming := wf.indexes_withoutNode wf.indexes_incoming id
  refine of_indexes ?_ (fun found => wf.edge_id (lookup found).1)
    (fun found other => wf.target_unique (lookup found).1 (lookup other).1) ?_ ?_ ?_
  · intro other node found
    rw [wf.node?_withoutNode] at found
    split at found
    · cases found
    · exact wf.node_id found
  · rw [wf.withoutNode_eq] at outgoing ⊢
    exact outgoing
  · rw [wf.withoutNode_eq] at incoming ⊢
    exact incoming
  · intro edgeId edge found
    obtain ⟨stored, source, target⟩ := lookup found
    simp [wf.hasNode_withoutNode, wf.ends stored, Ne.symm source, Ne.symm target]

end WellFormed
end OpGraph.Graph
