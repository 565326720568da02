import OpGraph.Graph.WellFormed

/-! What each update of a graph does to its tables. Removing a node detaches edge after edge; that is
the same as dropping all of them at once, provided the lists name only edges that are there. -/

namespace OpGraph.Graph
open Std (ExtTreeMap)

theorem hasNode_eq_isSome (graph : Graph) (id : NodeId) : graph.hasNode id = (graph.node? id).isSome := by
  simp [hasNode, node?]

theorem hasNode_of_node? {graph : Graph} {id : NodeId} {node : Node} (found : graph.node? id = some node) :
    graph.hasNode id := by
  simp [hasNode_eq_isSome, found]

theorem exists_node?_of_hasNode {graph : Graph} {id : NodeId} (present : graph.hasNode id) :
    ∃ node, graph.node? id = some node := by
  simpa [hasNode_eq_isSome, Option.isSome_iff_exists] using present

/-! ## Nodes -/

theorem node?_withNode (graph : Graph) (node : Node) (id : NodeId) :
    (graph.withNode node).node? id = if node.id = id then some node else graph.node? id := by
  simp [withNode, node?, ExtTreeMap.getElem?_insert]

theorem hasNode_withNode (graph : Graph) (node : Node) (id : NodeId) :
    (graph.withNode node).hasNode id = (decide (node.id = id) || graph.hasNode id) := by
  simp only [hasNode_eq_isSome, node?_withNode]
  split <;> simp_all

@[simp] theorem edge?_withNode (graph : Graph) (node : Node) (id : EdgeId) :
    (graph.withNode node).edge? id = graph.edge? id := rfl

theorem node?_modifyNode (graph : Graph) (id : NodeId) (change : Node → Node) (other : NodeId) :
    (graph.modifyNode id change).node? other =
      if id = other then (graph.node? other).map fun node => { change node with id := node.id }
      else graph.node? other := by
  simp only [modifyNode, node?, ExtTreeMap.getElem?_modify, Std.compare_eq_iff_eq]
  split
  next same => rw [same]
  next => rfl

@[simp] theorem hasNode_modifyNode (graph : Graph) (id : NodeId) (change : Node → Node) (other : NodeId) :
    (graph.modifyNode id change).hasNode other = graph.hasNode other := by
  simp only [hasNode_eq_isSome, node?_modifyNode]
  split <;> simp

/-! ## Edges -/

@[simp] theorem node?_withEdge (graph : Graph) (edge : Edge) (id : NodeId) :
    (graph.withEdge edge).node? id = graph.node? id := rfl

@[simp] theorem hasNode_withEdge (graph : Graph) (edge : Edge) (id : NodeId) :
    (graph.withEdge edge).hasNode id = graph.hasNode id := rfl

theorem edge?_withEdge (graph : Graph) (edge : Edge) (id : EdgeId) :
    (graph.withEdge edge).edge? id = if edge.id = id then some edge else graph.edge? id := by
  simp [withEdge, edge?, ExtTreeMap.getElem?_insert]

@[simp] theorem node?_withoutEdge (graph : Graph) (edge : Edge) (id : NodeId) :
    (graph.withoutEdge edge).node? id = graph.node? id := rfl

@[simp] theorem hasNode_withoutEdge (graph : Graph) (edge : Edge) (id : NodeId) :
    (graph.withoutEdge edge).hasNode id = graph.hasNode id := rfl

theorem edge?_withoutEdge (graph : Graph) (edge : Edge) (id : EdgeId) :
    (graph.withoutEdge edge).edge? id = if edge.id = id then none else graph.edge? id := by
  simp [withoutEdge, edge?, ExtTreeMap.getElem?_erase]

/-! ## Many edges at once -/

def OwnIds (graph : Graph) : Prop := ∀ {id edge}, graph.edge? id = some edge → edge.id = id

def Lists (graph : Graph) (table : Adjacency) (endOf : Edge → NodeId) : Prop :=
  ∀ {id : NodeId} {ids : List EdgeId} {edgeId : EdgeId}, table[id]? = some ids → edgeId ∈ ids →
    ∃ edge, graph.edge? edgeId = some edge ∧ endOf edge = id

structure Consistent (graph : Graph) : Prop where
  ownIds : OwnIds graph
  outgoing : graph.Lists graph.outgoing fun edge => edge.source.node
  incoming : graph.Lists graph.incoming fun edge => edge.target.node

def keepEdges (graph : Graph) (keep : EdgeId → Bool) : Graph :=
  { graph with
    edges := graph.edges.filter fun id _ => keep id
    outgoing := graph.outgoing.map fun _ ids => ids.filter keep
    incoming := graph.incoming.map fun _ ids => ids.filter keep }

theorem edge?_keepEdges (graph : Graph) (keep : EdgeId → Bool) (id : EdgeId) :
    (graph.keepEdges keep).edge? id = if keep id then graph.edge? id else none := by
  simp only [keepEdges, edge?, ExtTreeMap.getElem?_filter']
  cases graph.edges[id]? <;> simp [Option.filter]

private theorem lists_keepEdges {graph : Graph} {table : Adjacency} {endOf : Edge → NodeId}
    (lists : graph.Lists table endOf) (keep : EdgeId → Bool) :
    (graph.keepEdges keep).Lists (table.map fun _ ids => ids.filter keep) endOf := by
  intro id ids edgeId found member
  rw [ExtTreeMap.getElem?_map, Option.map_eq_some_iff] at found
  obtain ⟨all, listed, rfl⟩ := found
  obtain ⟨inside, kept⟩ := List.mem_filter.mp member
  obtain ⟨edge, stored, same⟩ := lists listed inside
  exact ⟨edge, by rw [edge?_keepEdges, if_pos kept, stored], same⟩

theorem Consistent.keepEdges {graph : Graph} (consistent : graph.Consistent) (keep : EdgeId → Bool) :
    (graph.keepEdges keep).Consistent := by
  refine ⟨?_, lists_keepEdges consistent.outgoing keep, lists_keepEdges consistent.incoming keep⟩
  intro id edge stored
  rw [edge?_keepEdges] at stored
  split at stored
  · exact consistent.ownIds stored
  · cases stored

theorem keepEdges_keepEdges (graph : Graph) (first second : EdgeId → Bool) :
    (graph.keepEdges first).keepEdges second = graph.keepEdges fun id => first id && second id := by
  simp only [keepEdges, mk.injEq, true_and]
  refine ⟨?_, ?_, ?_⟩
  · apply ExtTreeMap.ext_getElem?
    intro id
    simp only [ExtTreeMap.getElem?_filter']
    cases graph.edges[id]? <;> cases first id <;> simp [Option.filter]
  all_goals
    apply ExtTreeMap.ext_getElem?
    intro id
    simp only [ExtTreeMap.getElem?_map, Option.map_map]
    congr 1
    funext ids
    simp [List.filter_filter, Bool.and_comm]

theorem keepEdges_all (graph : Graph) : (graph.keepEdges fun _ => true) = graph := by
  obtain ⟨nodes, edges, outgoing, incoming⟩ := graph
  have all (ids : List EdgeId) : ids.filter (fun _ => true) = ids := List.filter_eq_self.mpr fun _ _ => rfl
  simp only [keepEdges, mk.injEq, true_and, all]
  refine ⟨?_, ?_, ?_⟩
  · apply ExtTreeMap.ext_getElem?
    intro id
    rw [ExtTreeMap.getElem?_filter']
    cases edges[id]? <;> rfl
  all_goals
    apply ExtTreeMap.ext_getElem?
    intro id
    simp

/-! ## Detaching -/

/-- Where the other end of an edge says it is not listed at a node, dropping it there changes nothing. -/
private theorem modify_eq_map {graph : Graph} {table : Adjacency} {endOf : Edge → NodeId}
    (lists : graph.Lists table endOf) {edge : Edge} (stored : graph.edge? edge.id = some edge) :
    (table.modify (endOf edge) fun ids => ids.filter fun id => id != edge.id) =
      table.map fun _ ids => ids.filter fun id => id != edge.id := by
  apply ExtTreeMap.ext_getElem?
  intro id
  rw [ExtTreeMap.getElem?_modify, ExtTreeMap.getElem?_map]
  split
  next same => rw [Std.compare_eq_iff_eq.mp same]
  next different =>
    cases found : table[id]? with
    | none => rfl
    | some ids =>
      have absent : edge.id ∉ ids := by
        intro member
        obtain ⟨other, known, place⟩ := lists found member
        rw [stored] at known
        cases known
        exact different (Std.compare_eq_iff_eq.mpr place)
      have whole : ids.filter (fun id => id != edge.id) = ids := by
        apply List.filter_eq_self.mpr
        intro other member
        simpa using fun same : other = edge.id => absent (same ▸ member)
      rw [Option.map_some, whole]

theorem withoutEdge_eq_keepEdges {graph : Graph} (consistent : graph.Consistent) {edge : Edge}
    (stored : graph.edge? edge.id = some edge) :
    graph.withoutEdge edge = graph.keepEdges fun id => id != edge.id := by
  simp only [withoutEdge, keepEdges, mk.injEq, true_and]
  refine ⟨?_, modify_eq_map consistent.outgoing stored, modify_eq_map consistent.incoming stored⟩
  apply ExtTreeMap.ext_getElem?
  intro id
  simp only [ExtTreeMap.getElem?_erase, ExtTreeMap.getElem?_filter', Std.compare_eq_iff_eq]
  split
  next same => subst same; cases graph.edges[edge.id]? <;> simp [Option.filter]
  next different =>
    have kept : (id != edge.id) = true := by simpa using Ne.symm different
    rw [kept]
    cases graph.edges[id]? <;> rfl

/-- An id that no edge has is in no list either, so dropping it changes nothing. -/
private theorem keepEdges_absent {graph : Graph} (consistent : graph.Consistent) {id : EdgeId}
    (missing : graph.edge? id = none) : (graph.keepEdges fun other => other != id) = graph := by
  have whole {table : Adjacency} {endOf : Edge → NodeId} (lists : graph.Lists table endOf) :
      (table.map fun _ ids => ids.filter fun other => other != id) = table := by
    apply ExtTreeMap.ext_getElem?
    intro node
    rw [ExtTreeMap.getElem?_map]
    cases found : table[node]? with
    | none => rfl
    | some ids =>
      rw [Option.map_some, List.filter_eq_self.mpr]
      intro other member
      obtain ⟨edge, known, _⟩ := lists found member
      simp only [bne_iff_ne, ne_eq]
      rintro rfl
      rw [missing] at known
      cases known
  obtain ⟨nodes, edges, outgoing, incoming⟩ := graph
  simp only [keepEdges, mk.injEq, true_and]
  refine ⟨?_, whole consistent.outgoing, whole consistent.incoming⟩
  apply ExtTreeMap.ext_getElem?
  intro other
  rw [ExtTreeMap.getElem?_filter']
  by_cases same : other = id
  · subst same
    simp [show edges[other]? = none from missing]
  · have kept : (other != id) = true := by simpa using same
    rw [kept]
    cases edges[other]? <;> rfl

theorem detach_eq_keepEdges {graph : Graph} (consistent : graph.Consistent) (id : EdgeId) :
    graph.detach id = graph.keepEdges fun other => other != id := by
  unfold detach
  split
  next edge stored =>
    have same := consistent.ownIds stored
    subst same
    exact withoutEdge_eq_keepEdges consistent stored
  next missing => exact (keepEdges_absent consistent missing).symm

theorem foldl_detach {graph : Graph} (consistent : graph.Consistent) (ids : List EdgeId) :
    ids.foldl detach graph = graph.keepEdges fun id => !ids.contains id := by
  induction ids generalizing graph with
  | nil => simpa using (keepEdges_all graph).symm
  | cons id ids ih =>
    rw [List.foldl_cons, detach_eq_keepEdges consistent, ih (consistent.keepEdges _), keepEdges_keepEdges]
    congr 1
    funext other
    by_cases same : other = id <;> simp [same]

end OpGraph.Graph
