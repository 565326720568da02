import OpGraph.Proofs.Histories
import OpGraph.Proofs.Rebuilding

/-! Removal undoes insertion. A well-formed graph is known from its nodes, its edges and the order in which edges are
listed at each node. An insertion puts an edge at the end of two lists, a removal takes edges out of the lists and keeps
the order of all others, so what was added last goes without a trace, however many edges at a node it is. -/

namespace OpGraph

def Edge.isAt (edge : Edge) (id : NodeId) : Bool := edge.source.node == id || edge.target.node == id

theorem Edge.isAt_iff {edge : Edge} {id : NodeId} : edge.isAt id ↔ edge.source.node = id ∨ edge.target.node = id := by
  simp [isAt]

namespace Graph
open Std (ExtTreeMap)

/-! ## Lists of edges -/

def listed (graph : Graph) (table : Adjacency) (id : NodeId) : List Edge := (table[id]?.getD []).filterMap graph.edge?

theorem listed_withNode (graph : Graph) (table : Adjacency) (node : Node) (id : NodeId) :
    (graph.withNode node).listed (table.insertIfNew node.id []) id = graph.listed table id := by
  have same : (table.insertIfNew node.id [])[id]?.getD [] = table[id]?.getD [] := by
    rw [ExtTreeMap.getElem?_insertIfNew]
    split
    next fresh =>
      have absent : table[id]? = none := by
        rw [← Std.compare_eq_iff_eq.mp fresh.1]
        exact ExtTreeMap.getElem?_eq_none fresh.2
      rw [absent]
      rfl
    next => rfl
  exact congrArg (List.filterMap graph.edge?) same

theorem listed_keepEdges {graph : Graph} (ownIds : graph.OwnIds) (table : Adjacency)
    (keep : EdgeId → Bool) (id : NodeId) :
    (graph.keepEdges keep).listed (table.map fun _ ids => ids.filter keep) id =
      (graph.listed table id).filter fun edge => keep edge.id := by
  have same : ((table.map fun _ ids => ids.filter keep)[id]?).getD [] = (table[id]?.getD []).filter keep := by
    rw [ExtTreeMap.getElem?_map]
    cases table[id]? <;> rfl
  rw [listed, listed, same, List.filterMap_filter, List.filter_filterMap]
  apply List.filterMap_congr
  intro edgeId _
  rw [edge?_keepEdges]
  cases stored : graph.edge? edgeId with
  | none => simp
  | some edge =>
    rw [Option.filter_some, ownIds stored]
    split <;> rfl

namespace Indexes

variable {graph : Graph} {table : Adjacency} {endOf : Edge → NodeId}

theorem listed_withEdge (indexes : Indexes graph table endOf) {edge : Edge} (unused : graph.edge? edge.id = none)
    (id : NodeId) :
    (graph.withEdge edge).listed (table.alter (endOf edge) fun ids => some (ids.getD [] ++ [edge.id])) id =
      graph.listed table id ++ if endOf edge = id then [edge] else [] := by
  have former : (table[id]?.getD []).filterMap (graph.withEdge edge).edge? = graph.listed table id := by
    apply List.filterMap_congr
    intro edgeId member
    rw [edge?_withEdge, if_neg]
    rintro rfl
    cases found : table[id]? with
    | none => simp [found] at member
    | some ids => exact indexes.not_mem_of_unused unused found (by simpa [found] using member)
  have added : (graph.withEdge edge).edge? edge.id = some edge := by rw [edge?_withEdge, if_pos rfl]
  rw [listed, ExtTreeMap.getElem?_alter]
  simp only [Std.compare_eq_iff_eq]
  split
  next here =>
    subst here
    rw [Option.getD_some, List.filterMap_append, former, List.filterMap_cons_some added, List.filterMap_nil]
  next => rw [former, List.append_nil]

/-- An index is known from the edges that it lists. -/
theorem eq_of_listed (indexes : Indexes graph table endOf) (ownIds : graph.OwnIds) {other : Graph} {others : Adjacency}
    (otherIndexes : Indexes other others endOf) (otherIds : other.OwnIds)
    (hasNode : ∀ id, graph.hasNode id = other.hasNode id)
    (same : ∀ id, graph.listed table id = other.listed others id) : table = others := by
  apply ExtTreeMap.ext_getElem?
  intro id
  have ids : table[id]?.getD [] = others[id]?.getD [] := by
    rw [← indexes.map_id_edges ownIds, ← otherIndexes.map_id_edges otherIds]
    exact congrArg (List.map Edge.id) (same id)
  have keys : id ∈ table ↔ id ∈ others := by rw [indexes.keys, otherIndexes.keys, hasNode]
  rw [ExtTreeMap.mem_iff_isSome_getElem?, ExtTreeMap.mem_iff_isSome_getElem?] at keys
  cases first : table[id]? <;> cases second : others[id]? <;> simp_all

end Indexes

namespace WellFormed

variable {graph : Graph}

/-- A well-formed graph is known from its nodes, its edges and their order at each node. -/
theorem ext (wf : graph.WellFormed) {other : Graph} (otherWf : other.WellFormed)
    (node? : ∀ id, graph.node? id = other.node? id)
    (edge? : ∀ id, graph.edge? id = other.edge? id) (outgoing : ∀ id, graph.outgoingEdges id = other.outgoingEdges id)
    (incoming : ∀ id, graph.incomingEdges id = other.incomingEdges id) : graph = other := by
  have hasNode (id : NodeId) : graph.hasNode id = other.hasNode id := by
    rw [hasNode_eq_isSome, hasNode_eq_isSome, node?]
  have nodes : graph.nodes = other.nodes := ExtTreeMap.ext_getElem? node?
  have edges : graph.edges = other.edges := ExtTreeMap.ext_getElem? edge?
  have leaving := wf.indexes_outgoing.eq_of_listed wf.edge_id otherWf.indexes_outgoing otherWf.edge_id hasNode outgoing
  have reaching := wf.indexes_incoming.eq_of_listed wf.edge_id otherWf.indexes_incoming otherWf.edge_id hasNode incoming
  cases graph
  cases other
  simp_all

/-! ## Insertion -/

theorem outgoingEdges_withEdge (wf : graph.WellFormed) {edge : Edge}
    (unused : graph.edge? edge.id = none) (id : NodeId) :
    (graph.withEdge edge).outgoingEdges id = graph.outgoingEdges id ++ if edge.source.node = id then [edge] else [] :=
  wf.indexes_outgoing.listed_withEdge unused id

theorem incomingEdges_withEdge (wf : graph.WellFormed) {edge : Edge}
    (unused : graph.edge? edge.id = none) (id : NodeId) :
    (graph.withEdge edge).incomingEdges id = graph.incomingEdges id ++ if edge.target.node = id then [edge] else [] :=
  wf.indexes_incoming.listed_withEdge unused id

/-! ## Removal -/

theorem outgoingEdges_withoutEdge (wf : graph.WellFormed) {edge : Edge} (stored : graph.edge? edge.id = some edge)
    (id : NodeId) :
    (graph.withoutEdge edge).outgoingEdges id = (graph.outgoingEdges id).filter fun other => other.id != edge.id := by
  rw [withoutEdge_eq_keepEdges wf.consistent stored]
  exact listed_keepEdges wf.edge_id graph.outgoing _ id

theorem incomingEdges_withoutEdge (wf : graph.WellFormed) {edge : Edge} (stored : graph.edge? edge.id = some edge)
    (id : NodeId) :
    (graph.withoutEdge edge).incomingEdges id = (graph.incomingEdges id).filter fun other => other.id != edge.id := by
  rw [withoutEdge_eq_keepEdges wf.consistent stored]
  exact listed_keepEdges wf.edge_id graph.incoming _ id

/-- What is left of an index when a node goes. The list at the node itself goes whole, as each of its edges is at the
node. -/
private theorem listed_withoutNode (wf : graph.WellFormed) {table : Adjacency} {endOf : Edge → NodeId}
    (indexes : Indexes graph table endOf)
    (present : ∀ {id edge}, graph.edge? id = some edge → graph.hasNode (endOf edge))
    (isAt : ∀ edge : Edge, edge.isAt (endOf edge)) (id other : NodeId) :
    (graph.withoutNode id).listed
      ((table.erase id).map fun _ ids => ids.filter fun edgeId => !(graph.attached id).contains edgeId) other =
      (graph.listed table other).filter fun edge => !edge.isAt id := by
  have rest : graph.listed (table.erase id) other = if id = other then [] else graph.listed table other := by
    rw [listed, ExtTreeMap.getElem?_erase]
    simp only [Std.compare_eq_iff_eq]
    split <;> rfl
  have kept : (graph.withoutNode id).edge? =
      ((graph.isolate id).keepEdges fun edgeId => !(graph.attached id).contains edgeId).edge? := by
    rw [wf.withoutNode_eq]
    rfl
  have ownIds : (graph.isolate id).OwnIds := wf.edge_id
  have dropped := listed_keepEdges ownIds (table.erase id) (fun edgeId => !(graph.attached id).contains edgeId) other
  rw [listed, kept]
  refine dropped.trans ?_
  rw [show (graph.isolate id).listed (table.erase id) other = graph.listed (table.erase id) other from rfl, rest]
  split
  next here =>
    subst here
    refine (List.filter_eq_nil_iff.mpr fun edge member => ?_).symm
    obtain ⟨_, rfl⟩ := (indexes.mem_edges wf.edge_id present).mp member
    simp [isAt]
  next =>
    apply List.filter_congr
    intro edge member
    have stored := ((indexes.mem_edges wf.edge_id present).mp member).1
    rw [Bool.not_inj_iff, Bool.eq_iff_iff, List.contains_iff_mem, wf.mem_attached stored, Edge.isAt_iff]

theorem outgoingEdges_withoutNode (wf : graph.WellFormed) (id other : NodeId) :
    (graph.withoutNode id).outgoingEdges other = (graph.outgoingEdges other).filter fun edge => !edge.isAt id := by
  have left :=
    wf.listed_withoutNode wf.indexes_outgoing wf.hasNode_source (fun _ => Edge.isAt_iff.mpr (.inl rfl)) id other
  have table : (graph.withoutNode id).outgoing =
      (graph.outgoing.erase id).map fun _ ids => ids.filter fun edgeId => !(graph.attached id).contains edgeId := by
    rw [wf.withoutNode_eq]
    rfl
  rw [← table] at left
  exact left

theorem incomingEdges_withoutNode (wf : graph.WellFormed) (id other : NodeId) :
    (graph.withoutNode id).incomingEdges other = (graph.incomingEdges other).filter fun edge => !edge.isAt id := by
  have left :=
    wf.listed_withoutNode wf.indexes_incoming wf.hasNode_target (fun _ => Edge.isAt_iff.mpr (.inr rfl)) id other
  have table : (graph.withoutNode id).incoming =
      (graph.incoming.erase id).map fun _ ids => ids.filter fun edgeId => !(graph.attached id).contains edgeId := by
    rw [wf.withoutNode_eq]
    rfl
  rw [← table] at left
  exact left

/-! ## Removal after insertion -/

theorem withoutEdge_withEdge (wf : graph.WellFormed) {edge : Edge} (accepts : graph.Accepts edge) :
    (graph.withEdge edge).withoutEdge edge = graph := by
  have grown := accepts.wellFormed wf
  have stored : (graph.withEdge edge).edge? edge.id = some edge := by rw [edge?_withEdge, if_pos rfl]
  -- the edges that were there have other ids, so they all pass, and the one at the end does not
  have others {edges : List Edge} (known : ∀ other ∈ edges, graph.edge? other.id = some other) (added : Prop)
      [Decidable added] :
      (edges ++ if added then [edge] else []).filter (fun other => other.id != edge.id) = edges := by
    have kept : edges.filter (fun other => other.id != edge.id) = edges := by
      refine List.filter_eq_self.mpr fun other member => bne_iff_ne.mpr fun same => ?_
      have found := known other member
      rw [same, accepts.unused] at found
      cases found
    rw [List.filter_append, kept]
    split <;> simp
  refine (grown.withoutEdge stored).ext wf (fun _ => rfl) (fun id => ?_) (fun id => ?_) (fun id => ?_)
  · rw [edge?_withoutEdge, edge?_withEdge]
    split
    next same => rw [← same, accepts.unused]
    next => rfl
  · rw [grown.outgoingEdges_withoutEdge stored, wf.outgoingEdges_withEdge accepts.unused]
    exact others (fun other member => (wf.mem_outgoingEdges.mp member).1) _
  · rw [grown.incomingEdges_withoutEdge stored, wf.incomingEdges_withEdge accepts.unused]
    exact others (fun other member => (wf.mem_incomingEdges.mp member).1) _

/-- No edge is at a node that is not there. -/
theorem withoutNode_withNode (wf : graph.WellFormed) {node : Node} (unused : ¬ graph.hasNode node.id) :
    (graph.withNode node).withoutNode node.id = graph := by
  have grown := wf.withNode unused
  have apart {edge : Edge} (stored : graph.edge? edge.id = some edge) : (!edge.isAt node.id) = true := by
    have ends := wf.ends stored
    rw [Bool.not_eq_true', Bool.eq_false_iff, ne_eq, Edge.isAt_iff]
    rintro (same | same)
    · exact unused (same ▸ ends.1)
    · exact unused (same ▸ ends.2)
  refine (grown.withoutNode node.id).ext wf (fun id => ?_) (fun id => ?_) (fun id => ?_) (fun id => ?_)
  · rw [grown.node?_withoutNode, node?_withNode]
    split
    next same =>
      have absent : graph.node? node.id = none := by simpa [hasNode_eq_isSome] using unused
      rw [← same, absent]
    next => rfl
  · rw [grown.edge?_withoutNode, edge?_withNode]
    cases stored : graph.edge? id with
    | none => rfl
    | some edge =>
      have own := wf.edge_id stored
      have elsewhere := apart (own ▸ stored)
      rw [Edge.isAt, Bool.not_or] at elsewhere
      exact Option.filter_eq_some_iff.mpr ⟨rfl, elsewhere⟩
  · rw [grown.outgoingEdges_withoutNode]
    refine Eq.trans (congrArg _ (listed_withNode graph graph.outgoing node id)) ?_
    exact List.filter_eq_self.mpr fun edge member => apart (wf.mem_outgoingEdges.mp member).1
  · rw [grown.incomingEdges_withoutNode]
    refine Eq.trans (congrArg _ (listed_withNode graph graph.incoming node id)) ?_
    exact List.filter_eq_self.mpr fun edge member => apart (wf.mem_incomingEdges.mp member).1

/-- An edge at a node goes with the node, whether its other end is another node or the same one. -/
theorem withoutNode_withEdge (wf : graph.WellFormed) {edge : Edge} (accepts : graph.Accepts edge) {id : NodeId}
    (isAt : edge.isAt id) : (graph.withEdge edge).withoutNode id = graph.withoutNode id := by
  have grown := accepts.wellFormed wf
  have added (edges : List Edge) (here : Prop) [Decidable here] :
      (edges ++ if here then [edge] else []).filter (fun other => !other.isAt id) =
        edges.filter fun other => !other.isAt id := by
    rw [List.filter_append]
    split <;> simp [isAt]
  refine (grown.withoutNode id).ext (wf.withoutNode id) (fun other => ?_) (fun edgeId => ?_) (fun other => ?_)
    (fun other => ?_)
  · rw [grown.node?_withoutNode, wf.node?_withoutNode, node?_withEdge]
  · rw [grown.edge?_withoutNode, wf.edge?_withoutNode, edge?_withEdge]
    split
    next same =>
      have gone : (some edge).filter (fun edge => edge.source.node != id && edge.target.node != id) = none := by
        rw [Option.filter_some, if_neg]
        obtain same | same := Edge.isAt_iff.mp isAt <;> simp [same]
      rw [gone, ← same, accepts.unused]
      rfl
    next => rfl
  · rw [grown.outgoingEdges_withoutNode, wf.outgoingEdges_withoutNode, wf.outgoingEdges_withEdge accepts.unused, added]
  · rw [grown.incomingEdges_withoutNode, wf.incomingEdges_withoutNode, wf.incomingEdges_withEdge accepts.unused, added]

/-- However many edges there are at a node, they go with it. -/
theorem withoutNode_foldl_withEdge (wf : graph.WellFormed) {edges : List Edge}
    (accepts : graph.AcceptsEdges edges) {id : NodeId} (isAt : ∀ edge ∈ edges, edge.isAt id) :
    (edges.foldl Graph.withEdge graph).withoutNode id = graph.withoutNode id := by
  induction edges generalizing graph with
  | nil => rfl
  | cons edge edges ih =>
    obtain ⟨here, later⟩ := acceptsEdges_cons.mp accepts
    obtain ⟨edgeAt, othersAt⟩ := List.forall_mem_cons.mp isAt
    rw [List.foldl_cons, ih (here.wellFormed wf) later othersAt, wf.withoutNode_withEdge here edgeAt]

end WellFormed

/-- The second graph is the first without a node and the edges at it. The others stay, in their order. -/
structure Without (before : Graph) (id : NodeId) (after : Graph) : Prop where
  wellFormed : after.WellFormed
  node? : ∀ other, after.node? other = if id = other then none else before.node? other
  edge? : ∀ edgeId, after.edge? edgeId = (before.edge? edgeId).filter fun edge => !edge.isAt id
  outgoing : ∀ other, after.outgoingEdges other = (before.outgoingEdges other).filter fun edge => !edge.isAt id
  incoming : ∀ other, after.incomingEdges other = (before.incomingEdges other).filter fun edge => !edge.isAt id

namespace WellFormed

variable {graph : Graph}

theorem without_withoutNode (wf : graph.WellFormed) (id : NodeId) : graph.Without id (graph.withoutNode id) where
  wellFormed := wf.withoutNode id
  node? := wf.node?_withoutNode id
  edge? edgeId := by
    rw [wf.edge?_withoutNode]
    congr
    funext edge
    rw [Edge.isAt, Bool.not_or]
    rfl
  outgoing := wf.outgoingEdges_withoutNode id
  incoming := wf.incomingEdges_withoutNode id

/-- A node that was added with edges at it is removed with them. -/
theorem edit_removeNode_added (wf : graph.WellFormed) {node : Node} {edges : List Edge}
    (isAt : ∀ edge ∈ edges, edge.isAt node.id) {after : Graph} (ran : graph.edit (do
      discard <| addNode node
      edges.forM fun edge => discard <| addEdge edge) = (.ok (), after)) :
    after.edit (removeNode node.id) = (.ok node, graph) := by
  obtain ⟨_, middle, first, rest⟩ := edit_bind_eq_ok.mp ran
  rw [edit_discard, edit_addNode] at first
  split at first
  · cases first
  next unused =>
    cases first
    have grown := wf.withNode unused
    obtain ⟨accepts, rfl⟩ := grown.edit_addEdges_eq_ok.mp rest
    have present : (edges.foldl Graph.withEdge (graph.withNode node)).node? node.id = some node := by
      rw [Graph.node?, nodes_foldl_withEdge]
      exact (node?_withNode graph node node.id).trans (if_pos rfl)
    rw [edit_removeNode, present, grown.withoutNode_foldl_withEdge accepts isAt, wf.withoutNode_withNode unused]

end WellFormed

variable {graph : Graph}

/-- Removing an edge undoes its insertion, and removing a node undoes that of the node and of edges at it, to the
order of the edges at each node. Any other node goes with the edges at it, and nothing else goes or moves. -/
theorem removal_undoes_insertion (wf : graph.WellFormed) :
    (∀ edge id after, graph.edit (addEdge edge) = (.ok id, after) →
      after.edit (removeEdge edge.id) = (.ok edge, graph)) ∧
    (∀ (node : Node) (edges : List Edge) after, (∀ edge ∈ edges, edge.isAt node.id) →
      graph.edit (do
        discard <| addNode node
        edges.forM fun edge => discard <| addEdge edge) = (.ok (), after) →
      after.edit (removeNode node.id) = (.ok node, graph)) ∧
    ∀ id node, graph.node? id = some node → ∃ after, graph.edit (removeNode id) = (.ok node, after) ∧
      graph.Without id after := by
  refine ⟨?_, fun node edges after isAt ran => wf.edit_removeNode_added isAt ran, ?_⟩
  · intro edge id after ran
    obtain ⟨accepts, rfl⟩ := wf.edit_addEdge_eq_ok.mp (edit_discard_ok ran)
    have stored : (graph.withEdge edge).edge? edge.id = some edge := by rw [edge?_withEdge, if_pos rfl]
    rw [edit_removeEdge, stored]
    exact congrArg (Prod.mk _) (wf.withoutEdge_withEdge accepts)
  · intro id node found
    refine ⟨graph.withoutNode id, ?_, wf.without_withoutNode id⟩
    rw [edit_removeNode, found]

/-- A parameter that feeds two inputs of one node, and a third one through another node. -/
def spanned : Graph := Graph.empty.history
  [.addNode (.parameter "p" none), .addNode { id := "m", kind := .shapeOf }, .addNode { id := "q", kind := .squeeze },
    .connect ⟨"p", 0⟩ ⟨"q", 0⟩, .connect ⟨"p", 0⟩ ⟨"m", 0⟩, .connect ⟨"m", 0⟩ ⟨"q", 2⟩, .connect ⟨"p", 0⟩ ⟨"q", 1⟩]

theorem exists_edit_eq_ok {ε α : Type} {action : Edit ε α} {value : α} (succeeds : (graph.edit action).1 = .ok value) :
    ∃ after, graph.edit action = (.ok value, after) := ⟨_, edit_eq_of_fst succeeds⟩

/-- An edge beside two parallel ones, a node with an edge to itself and two edges to the same neighbour, and a node
between two others. -/
theorem removal_undoes_insertion_spanned : spanned.WellFormed ∧
    (let edge : Edge := ⟨⟨1⟩, ⟨"p", 0⟩, ⟨"q", 3⟩⟩
    ∃ after, spanned.edit (addEdge edge) = (.ok edge.id, after) ∧
      after.edit (removeEdge edge.id) = (.ok edge, spanned)) ∧
    (let node : Node := { id := "n", kind := .other "Add" }
    let edges : List Edge :=
      [⟨⟨1⟩, ⟨"p", 0⟩, ⟨"n", 0⟩⟩, ⟨⟨2⟩, ⟨"n", 1⟩, ⟨"n", 1⟩⟩, ⟨⟨3⟩, ⟨"n", 0⟩, ⟨"q", 3⟩⟩, ⟨⟨4⟩, ⟨"n", 0⟩, ⟨"q", 4⟩⟩]
    (∀ edge ∈ edges, edge.isAt node.id) ∧ ∃ after, spanned.edit (do
        discard <| addNode node
        edges.forM fun edge => discard <| addEdge edge) = (.ok (), after) ∧
      after.edit (removeNode node.id) = (.ok node, spanned)) ∧
    ∃ after, spanned.edit (removeNode "m") = (.ok { id := "m", kind := .shapeOf }, after) ∧ spanned.Without "m" after ∧
      (after.incomingEdges "q").map Edge.target = [⟨"q", 0⟩, ⟨"q", 1⟩] := by
  have wf : spanned.WellFormed := wellFormed_empty.history _
  refine ⟨wf, ?_, ⟨by decide, ?_⟩, ?_⟩
  · refine (exists_edit_eq_ok ?_).imp fun after ran => ⟨ran, (removal_undoes_insertion wf).1 _ _ _ ran⟩
    decide +kernel
  · refine (exists_edit_eq_ok ?_).imp fun after ran => ⟨ran, (removal_undoes_insertion wf).2.1 _ _ _ (by decide) ran⟩
    decide +kernel
  · obtain ⟨after, ran, without⟩ :=
      (removal_undoes_insertion wf).2.2 "m" { id := "m", kind := .shapeOf } (by decide +kernel)
    refine ⟨after, ran, without, ?_⟩
    rw [without.incoming]
    decide +kernel

end Graph
end OpGraph
