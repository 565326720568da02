import OpGraph.Proofs.Storage

/-! Loading. What is loaded are the values of two tables, of nodes and of edges, in the order in which these happen to
be gone through; the keys play no part. Loading sorts them first, and although edges are sorted without regard to their
ids, none that can be loaded together tie. So nothing of that order is left in the graph. -/

namespace OpGraph.Graph
open Std (ExtTreeMap)

/-! ## Order at a node -/

/-- An edge is listed last at its ends. -/
theorem Indexes.edges_withEdge {graph : Graph} {table : Adjacency} {endOf : Edge → NodeId}
    (indexes : Indexes graph table endOf) {edge : Edge} (unused : graph.edge? edge.id = none) (id : NodeId) :
    ((table.alter (endOf edge) fun ids => some (ids.getD [] ++ [edge.id]))[id]?.getD []).filterMap
      (graph.withEdge edge).edge? =
      (table[id]?.getD []).filterMap graph.edge? ++ [edge].filter fun edge => endOf edge == id := by
  have others : (table[id]?.getD []).filterMap (graph.withEdge edge).edge? =
      (table[id]?.getD []).filterMap graph.edge? := by
    apply List.filterMap_congr
    intro edgeId member
    cases found : table[id]? with
    | none => simp [found] at member
    | some ids =>
      rw [found, Option.getD_some] at member
      have different : edge.id ≠ edgeId := fun same => indexes.not_mem_of_unused unused found (same ▸ member)
      rw [edge?_withEdge, if_neg different]
  rw [ExtTreeMap.getElem?_alter]
  by_cases here : endOf edge = id
  · subst here
    rw [if_pos Std.ReflOrd.compare_self, Option.getD_some, List.filterMap_append, others]
    simp [edge?_withEdge]
  · simp [here, others]

namespace AcceptsEdges

variable {graph : Graph} {edges : List Edge}

theorem outgoingEdges_foldl (accepts : graph.AcceptsEdges edges) (wf : graph.WellFormed) (id : NodeId) :
    (edges.foldl withEdge graph).outgoingEdges id =
      graph.outgoingEdges id ++ edges.filter fun edge => edge.source.node == id := by
  induction edges generalizing graph with
  | nil => simp
  | cons first edges ih =>
    obtain ⟨here, rest⟩ := acceptsEdges_cons.mp accepts
    have last : (graph.withEdge first).outgoingEdges id = _ := wf.indexes_outgoing.edges_withEdge here.unused id
    rw [List.foldl_cons, ih rest (here.wellFormed wf), last, List.append_assoc, ← List.filter_append]
    rfl

theorem incomingEdges_foldl (accepts : graph.AcceptsEdges edges) (wf : graph.WellFormed) (id : NodeId) :
    (edges.foldl withEdge graph).incomingEdges id =
      graph.incomingEdges id ++ edges.filter fun edge => edge.target.node == id := by
  induction edges generalizing graph with
  | nil => simp
  | cons first edges ih =>
    obtain ⟨here, rest⟩ := acceptsEdges_cons.mp accepts
    have last : (graph.withEdge first).incomingEdges id = _ := wf.indexes_incoming.edges_withEdge here.unused id
    rw [List.foldl_cons, ih rest (here.wellFormed wf), last, List.append_assoc, ← List.filter_append]
    rfl

end AcceptsEdges

namespace Fits

variable {nodes : List Node} {edges : List Edge}

theorem outgoingEdges (fits : Fits nodes edges) (id : NodeId) :
    (assemble nodes edges).outgoingEdges id = edges.filter fun edge => edge.source.node == id := by
  obtain ⟨accepts, taken⟩ := fits_iff.mp fits
  have bare : (nodes.foldl withNode empty).outgoingEdges id = [] :=
    List.filterMap_eq_nil_iff.mpr fun edgeId _ => edge?_foldl_empty edgeId
  rw [assemble, taken.outgoingEdges_foldl (accepts.wellFormed wellFormed_empty), bare, List.nil_append]

theorem incomingEdges (fits : Fits nodes edges) (id : NodeId) :
    (assemble nodes edges).incomingEdges id = edges.filter fun edge => edge.target.node == id := by
  obtain ⟨accepts, taken⟩ := fits_iff.mp fits
  have bare : (nodes.foldl withNode empty).incomingEdges id = [] :=
    List.filterMap_eq_nil_iff.mpr fun edgeId _ => edge?_foldl_empty edgeId
  rw [assemble, taken.incomingEdges_foldl (accepts.wellFormed wellFormed_empty), bare, List.nil_append]

/-! ## Any order of the parts -/

theorem sort_nodes (fits : Fits nodes edges) {others : List Node} (same : others.Perm nodes) :
    others.mergeSort (fun first second => first.id ≤ second.id) =
      nodes.mergeSort fun first second => first.id ≤ second.id := by
  apply Node.sorts_id.eq_of_perm same
  intro first member second otherMember below above
  have ids : first.id = second.id := String.le_antisymm (of_decide_eq_true below) (of_decide_eq_true above)
  exact List.inj_on_of_nodup_map fits.nodeIds member otherMember ids

theorem sort_edges (fits : Fits nodes edges) {others : List Edge} (same : others.Perm edges) :
    others.mergeSort Edge.targetFirst = edges.mergeSort Edge.targetFirst := by
  apply Edge.sorts_targetFirst.eq_of_perm same
  intro first member second otherMember below above
  exact List.inj_on_of_nodup_map fits.targets member otherMember (Edge.target_eq_of_targetFirst below above)

end Fits

theorem ofParts_perm {nodes otherNodes : List Node} {edges otherEdges : List Edge} {graph : Graph}
    (loaded : ofParts nodes edges = .ok graph) (sameNodes : otherNodes.Perm nodes) (sameEdges : otherEdges.Perm edges) :
    ofParts otherNodes otherEdges = .ok graph := by
  obtain ⟨fits, assembled⟩ := ofParts_eq_ok.mp loaded
  refine ofParts_eq_ok.mpr ⟨fits.perm sameNodes sameEdges, ?_⟩
  rw [fits.sort_nodes sameNodes, fits.sort_edges sameEdges, assembled]

/-! ## What is loaded -/

structure Loaded (nodes : List Node) (edges : List Edge) (graph : Graph) : Prop where
  wellFormed : graph.WellFormed
  sameNodes : graph.nodeList.Perm nodes
  sameEdges : graph.edgeList.Perm edges
  outgoing : ∀ id, (graph.outgoingEdges id).Pairwise fun first second => first.targetFirst second
  incoming : ∀ id, (graph.incomingEdges id).Pairwise fun first second => first.targetFirst second
  /-- In another order the parts make the same graph, down to its adjacency lists. -/
  anyOrder : ∀ otherNodes otherEdges, otherNodes.Perm nodes → otherEdges.Perm edges →
    ofParts otherNodes otherEdges = .ok graph
  /-- Loading what was loaded changes nothing. -/
  again : ofParts graph.nodes.values graph.edges.values = .ok graph
  reread : graph.Storable → ∀ {json}, graph.Writes json → ofBytes (Utf8.encode json.compact) = .ok graph

theorem loaded_of_ofParts {nodes : List Node} {edges : List Edge} {graph : Graph}
    (loaded : ofParts nodes edges = .ok graph) : Loaded nodes edges graph := by
  obtain ⟨fits, assembled⟩ := ofParts_eq_ok.mp loaded
  subst assembled
  have sortedNodes := List.mergeSort_perm nodes fun first second => first.id ≤ second.id
  have sortedEdges := List.mergeSort_perm edges Edge.targetFirst
  have sorted := fits.perm sortedNodes sortedEdges
  have sameNodes := sorted.perm_nodeList.trans sortedNodes
  have sameEdges := sorted.perm_edgeList.trans sortedEdges
  have again := ofParts_perm loaded ((List.Perm.of_eq (values_eq _)).trans sameNodes)
    ((List.Perm.of_eq (values_eq _)).trans sameEdges)
  refine ⟨sorted.wellFormed, sameNodes, sameEdges, ?_, ?_, fun _ _ => ofParts_perm loaded, again, ?_⟩
  · intro id
    rw [sorted.outgoingEdges]
    exact (Edge.sorts_targetFirst.sorted edges).filter _
  · intro id
    rw [sorted.incomingEdges]
    exact (Edge.sorts_targetFirst.sorted edges).filter _
  · intro storable json writes
    have taken := (Document.leading?_texts (storable.reads writes)).1
    simp [ofBytes, taken, storable.partsOfDocument?_ofJson writes, again]

/-- Loading takes exactly the parts that fit together, and makes the same graph of them in any order. -/
theorem loading_is_canonical (nodes : List Node) (edges : List Edge) :
    ((∃ graph, ofParts nodes edges = .ok graph) ↔ Fits nodes edges) ∧
      ∀ graph, ofParts nodes edges = .ok graph → Loaded nodes edges graph := by
  refine ⟨⟨?_, ?_⟩, fun graph => loaded_of_ofParts⟩
  · intro ⟨graph, loaded⟩
    exact (ofParts_eq_ok.mp loaded).1
  · intro fits
    exact ⟨_, ofParts_eq_ok.mpr ⟨fits, rfl⟩⟩

/-- Two edges to different inputs, and two to the same one. -/
theorem loading_is_canonical_reversed :
    (let nodes : List Node := [.result "z", .parameter "x" none]
     let edges : List Edge := [⟨⟨7⟩, ⟨"x", 0⟩, ⟨"z", 1⟩⟩, ⟨⟨3⟩, ⟨"x", 1⟩, ⟨"z", 0⟩⟩]
     ∃ graph, ofParts nodes edges = .ok graph ∧ ofParts nodes.reverse edges.reverse = .ok graph) ∧
    ¬ ∃ graph, ofParts [.result "z", .parameter "x" none] [⟨⟨7⟩, ⟨"x", 0⟩, ⟨"z", 0⟩⟩, ⟨⟨3⟩, ⟨"x", 1⟩, ⟨"z", 0⟩⟩] =
      .ok graph := by
  constructor
  · intro nodes edges
    have fits : Fits nodes edges := ⟨by decide, by decide, by decide, by decide⟩
    obtain ⟨accepted, canonical⟩ := loading_is_canonical nodes edges
    obtain ⟨graph, loaded⟩ := accepted.mpr fits
    exact ⟨graph, loaded, (canonical graph loaded).anyOrder _ _ (List.reverse_perm _) (List.reverse_perm _)⟩
  · rw [(loading_is_canonical _ _).1]
    intro fits
    exact absurd fits.targets (by decide)

end OpGraph.Graph
