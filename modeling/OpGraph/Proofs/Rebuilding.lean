import OpGraph.Graph.Text
import OpGraph.Proofs.Insertion

/-! Insertion of nodes and edges into an empty graph. One insertion is refused where an id is in use, an end is missing
or an input port is taken. So lists of them are accepted exactly if no two of them are in each other's way, and a
well-formed graph is rebuilt from its nodes and edges in any order. -/

namespace OpGraph

theorem values_eq {κ α : Type} [Ord κ] [Std.TransOrd κ] (table : Std.ExtTreeMap κ α) :
    table.values = table.toList.map Prod.snd := by
  obtain ⟨inner⟩ := table
  induction inner with
  | mk tree =>
    change Std.DTreeMap.Internal.Impl.values tree.inner =
      (Std.DTreeMap.Internal.Impl.Const.toList tree.inner).map Prod.snd
    rw [Std.DTreeMap.Internal.Impl.values_eq_map_snd, Std.DTreeMap.Internal.Impl.Const.toList_eq_toListModel_map]
    simp

namespace Graph

/-! ## Nodes -/

structure AcceptsNodes (graph : Graph) (nodes : List Node) : Prop where
  distinct : (nodes.map Node.id).Nodup
  unused : ∀ node ∈ nodes, ¬ graph.hasNode node.id

theorem acceptsNodes_cons {graph : Graph} {first : Node} {nodes : List Node} :
    graph.AcceptsNodes (first :: nodes) ↔ ¬ graph.hasNode first.id ∧ (graph.withNode first).AcceptsNodes nodes := by
  constructor
  · intro accepts
    obtain ⟨other, distinct⟩ := List.nodup_cons.mp accepts.distinct
    obtain ⟨here, unused⟩ := List.forall_mem_cons.mp accepts.unused
    refine ⟨here, distinct, ?_⟩
    intro node member
    have different : first.id ≠ node.id := fun same => other (same ▸ List.mem_map_of_mem member)
    simpa [hasNode_withNode, different] using unused node member
  · intro ⟨here, rest⟩
    have later : ∀ node ∈ nodes, first.id ≠ node.id ∧ ¬ graph.hasNode node.id := by
      intro node member
      simpa [hasNode_withNode] using rest.unused node member
    refine ⟨List.nodup_cons.mpr ⟨?_, rest.distinct⟩,
      List.forall_mem_cons.mpr ⟨here, fun node member => (later node member).2⟩⟩
    intro listed
    obtain ⟨node, member, same⟩ := List.mem_map.mp listed
    exact (later node member).1 same.symm

theorem edit_addNodes_eq_ok {graph after : Graph} {nodes : List Node} :
    graph.edit (nodes.forM fun node => discard <| addNode node) = (.ok (), after) ↔
      graph.AcceptsNodes nodes ∧ nodes.foldl withNode graph = after := by
  induction nodes generalizing graph with
  | nil =>
    have accepts : graph.AcceptsNodes [] := ⟨List.nodup_nil, by simp⟩
    simp [accepts]
  | cons first nodes ih =>
    rw [List.forM_eq_forM, List.forM_cons, ← List.forM_eq_forM, acceptsNodes_cons]
    by_cases used : graph.hasNode first.id
    · have refused : graph.edit (discard <| addNode first) = (.error (.duplicateNode first.id), graph) := by
        rw [edit_discard, edit_addNode, if_pos used]
        rfl
      simp [edit_bind_error refused, used]
    · rw [edit_bind_ok (edit_discard_ok (edit_addNode_unused used)), ih]
      simp [used]

namespace AcceptsNodes

variable {graph : Graph} {nodes : List Node}

theorem wellFormed (accepts : graph.AcceptsNodes nodes) (wf : graph.WellFormed) :
    (nodes.foldl withNode graph).WellFormed := by
  induction nodes generalizing graph with
  | nil => exact wf
  | cons first nodes ih =>
    obtain ⟨here, rest⟩ := acceptsNodes_cons.mp accepts
    exact ih rest (wf.withNode here)

theorem node?_foldl (accepts : graph.AcceptsNodes nodes) {id : NodeId} {node : Node} :
    (nodes.foldl withNode graph).node? id = some node ↔ graph.node? id = some node ∨ node ∈ nodes ∧ node.id = id := by
  induction nodes generalizing graph with
  | nil => simp
  | cons first nodes ih =>
    obtain ⟨here, rest⟩ := acceptsNodes_cons.mp accepts
    have absent : graph.node? first.id = none := by simpa [hasNode_eq_isSome] using here
    rw [List.foldl_cons, ih rest, node?_withNode]
    grind

end AcceptsNodes

theorem edges_foldl_withNode (graph : Graph) (nodes : List Node) :
    (nodes.foldl withNode graph).edges = graph.edges := by
  induction nodes generalizing graph with
  | nil => rfl
  | cons first nodes ih => exact ih (graph.withNode first)

/-! ## Edges -/

structure Accepts (graph : Graph) (edge : Edge) : Prop where
  unused : graph.edge? edge.id = none
  source : graph.hasNode edge.source.node
  target : graph.hasNode edge.target.node
  free : ∀ {id other}, graph.edge? id = some other → other.target ≠ edge.target

theorem WellFormed.edit_addEdge_eq_ok {graph after : Graph} (wf : graph.WellFormed) {edge : Edge} :
    graph.edit (discard <| addEdge edge) = (.ok (), after) ↔ graph.Accepts edge ∧ graph.withEdge edge = after := by
  have unused : graph.edges.contains edge.id = (graph.edge? edge.id).isSome :=
    Std.ExtTreeMap.contains_eq_isSome_getElem?
  have taken : (graph.inEdge? edge.target).isSome ↔ ∃ id other, graph.edge? id = some other ∧
      other.target = edge.target := by
    rw [Option.isSome_iff_exists]
    constructor
    · intro ⟨other, found⟩
      exact ⟨other.id, other, wf.inEdge?_eq_some_iff.mp found⟩
    · intro ⟨id, other, stored, same⟩
      have own := wf.edge_id stored
      exact ⟨other, wf.inEdge?_eq_some_iff.mpr ⟨own ▸ stored, same⟩⟩
  rw [edit_discard, edit_addEdge, unused]
  constructor
  · intro ran
    split at ran
    · cases ran
    next new =>
      split at ran
      · cases ran
      next ends =>
        split at ran
        · cases ran
        next free =>
          rw [taken] at free
          refine ⟨⟨by simpa using new, ?_, ?_, fun stored same => free ⟨_, _, stored, same⟩⟩, congrArg Prod.snd ran⟩ <;>
            simp_all
  · intro ⟨accepts, same⟩
    have free : ¬ (graph.inEdge? edge.target).isSome := by
      rw [taken]
      exact fun ⟨_, _, stored, same⟩ => accepts.free stored same
    simp [accepts.unused, accepts.source, accepts.target, free, same, Except.map]

structure AcceptsEdges (graph : Graph) (edges : List Edge) : Prop where
  ids : (edges.map Edge.id).Nodup
  targets : (edges.map Edge.target).Nodup
  each : ∀ edge ∈ edges, graph.Accepts edge

theorem Accepts.withEdge_iff {graph : Graph} {first edge : Edge} (accepts : graph.Accepts first) :
    (graph.withEdge first).Accepts edge ↔ graph.Accepts edge ∧ first.id ≠ edge.id ∧ first.target ≠ edge.target := by
  constructor
  · intro later
    have different : first.id ≠ edge.id := by
      intro same
      have unused := later.unused
      rw [edge?_withEdge, if_pos same] at unused
      cases unused
    refine ⟨⟨?_, later.source, later.target, ?_⟩, different, ?_⟩
    · simpa [edge?_withEdge, different] using later.unused
    · intro id other stored
      have apart : first.id ≠ id := by
        rintro rfl
        rw [accepts.unused] at stored
        cases stored
      exact later.free (by rwa [edge?_withEdge, if_neg apart])
    · exact later.free (by rw [edge?_withEdge, if_pos rfl])
  · intro ⟨before, differentId, differentTarget⟩
    refine ⟨?_, before.source, before.target, ?_⟩
    · rw [edge?_withEdge, if_neg differentId, before.unused]
    · intro id other stored
      rw [edge?_withEdge] at stored
      split at stored
      · cases stored
        exact differentTarget
      · exact before.free stored

theorem acceptsEdges_cons {graph : Graph} {first : Edge} {edges : List Edge} :
    graph.AcceptsEdges (first :: edges) ↔ graph.Accepts first ∧ (graph.withEdge first).AcceptsEdges edges := by
  constructor
  · intro accepts
    obtain ⟨otherId, ids⟩ := List.nodup_cons.mp accepts.ids
    obtain ⟨otherTarget, targets⟩ := List.nodup_cons.mp accepts.targets
    obtain ⟨here, each⟩ := List.forall_mem_cons.mp accepts.each
    refine ⟨here, ids, targets, ?_⟩
    intro edge member
    have differentId : first.id ≠ edge.id := fun same => otherId (same ▸ List.mem_map_of_mem member)
    have differentTarget : first.target ≠ edge.target := fun same => otherTarget (same ▸ List.mem_map_of_mem member)
    exact here.withEdge_iff.mpr ⟨each edge member, differentId, differentTarget⟩
  · intro ⟨here, rest⟩
    have later := fun edge member => here.withEdge_iff.mp (rest.each edge member)
    refine ⟨List.nodup_cons.mpr ⟨?_, rest.ids⟩, List.nodup_cons.mpr ⟨?_, rest.targets⟩,
      List.forall_mem_cons.mpr ⟨here, fun edge member => (later edge member).1⟩⟩
    · intro listed
      obtain ⟨edge, member, same⟩ := List.mem_map.mp listed
      exact (later edge member).2.1 same.symm
    · intro listed
      obtain ⟨edge, member, same⟩ := List.mem_map.mp listed
      exact (later edge member).2.2 same.symm

theorem Accepts.wellFormed {graph : Graph} {edge : Edge} (accepts : graph.Accepts edge) (wf : graph.WellFormed) :
    (graph.withEdge edge).WellFormed :=
  wf.withEdge accepts.unused accepts.source accepts.target accepts.free

theorem WellFormed.edit_addEdges_eq_ok {graph after : Graph} (wf : graph.WellFormed) {edges : List Edge} :
    graph.edit (edges.forM fun edge => discard <| addEdge edge) = (.ok (), after) ↔
      graph.AcceptsEdges edges ∧ edges.foldl Graph.withEdge graph = after := by
  induction edges generalizing graph with
  | nil =>
    have accepts : graph.AcceptsEdges [] := ⟨List.nodup_nil, List.nodup_nil, by simp⟩
    simp [accepts]
  | cons first edges ih =>
    rw [List.forM_eq_forM, List.forM_cons, ← List.forM_eq_forM, acceptsEdges_cons, edit_bind_eq_ok]
    constructor
    · intro ⟨_, middle, added, rest⟩
      obtain ⟨here, same⟩ := wf.edit_addEdge_eq_ok.mp added
      subst same
      obtain ⟨later, same⟩ := (ih (here.wellFormed wf)).mp rest
      exact ⟨⟨here, later⟩, same⟩
    · intro ⟨⟨here, later⟩, same⟩
      exact ⟨(), _, wf.edit_addEdge_eq_ok.mpr ⟨here, rfl⟩, (ih (here.wellFormed wf)).mpr ⟨later, same⟩⟩

namespace AcceptsEdges

variable {graph : Graph} {edges : List Edge}

theorem wellFormed (accepts : graph.AcceptsEdges edges) (wf : graph.WellFormed) :
    (edges.foldl withEdge graph).WellFormed := by
  induction edges generalizing graph with
  | nil => exact wf
  | cons first edges ih =>
    obtain ⟨here, rest⟩ := acceptsEdges_cons.mp accepts
    exact ih rest (here.wellFormed wf)

theorem edge?_foldl (accepts : graph.AcceptsEdges edges) {id : EdgeId} {edge : Edge} :
    (edges.foldl withEdge graph).edge? id = some edge ↔ graph.edge? id = some edge ∨ edge ∈ edges ∧ edge.id = id := by
  induction edges generalizing graph with
  | nil => simp
  | cons first edges ih =>
    obtain ⟨here, rest⟩ := acceptsEdges_cons.mp accepts
    have absent := here.unused
    rw [List.foldl_cons, ih rest, edge?_withEdge]
    grind

end AcceptsEdges

theorem nodes_foldl_withEdge (graph : Graph) (edges : List Edge) :
    (edges.foldl withEdge graph).nodes = graph.nodes := by
  induction edges generalizing graph with
  | nil => rfl
  | cons first edges ih => exact ih (graph.withEdge first)

/-! ## Whole graphs -/

namespace WellFormed

variable {graph : Graph}

theorem nodup_nodeIds (wf : graph.WellFormed) : (graph.nodeList.map Node.id).Nodup := by
  rw [wf.map_id_nodeList]
  exact Std.ExtTreeMap.nodup_keys

theorem nodup_edgeIds (wf : graph.WellFormed) : (graph.edgeList.map Edge.id).Nodup := by
  rw [wf.map_id_edgeList]
  exact Std.ExtTreeMap.nodup_keys

end WellFormed

/-- Nodes and edges that make up a graph. -/
structure Fits (nodes : List Node) (edges : List Edge) : Prop where
  nodeIds : (nodes.map Node.id).Nodup
  edgeIds : (edges.map Edge.id).Nodup
  ends : ∀ edge ∈ edges, edge.source.node ∈ nodes.map Node.id ∧ edge.target.node ∈ nodes.map Node.id
  targets : (edges.map Edge.target).Nodup

theorem Fits.perm {nodes otherNodes : List Node} {edges otherEdges : List Edge} (fits : Fits nodes edges)
    (sameNodes : otherNodes.Perm nodes) (sameEdges : otherEdges.Perm edges) : Fits otherNodes otherEdges where
  nodeIds := (sameNodes.map Node.id).nodup_iff.mpr fits.nodeIds
  edgeIds := (sameEdges.map Edge.id).nodup_iff.mpr fits.edgeIds
  targets := (sameEdges.map Edge.target).nodup_iff.mpr fits.targets
  ends edge member := by
    have ids (id : NodeId) : id ∈ otherNodes.map Node.id ↔ id ∈ nodes.map Node.id := (sameNodes.map Node.id).mem_iff
    rw [ids, ids]
    exact fits.ends edge (sameEdges.mem_iff.mp member)

def assemble (nodes : List Node) (edges : List Edge) : Graph := edges.foldl withEdge (nodes.foldl withNode empty)

/-- The nodes that are inserted into a graph without any have to differ in their ids. -/
theorem acceptsNodes_empty {nodes : List Node} : empty.AcceptsNodes nodes ↔ (nodes.map Node.id).Nodup :=
  ⟨AcceptsNodes.distinct, fun distinct => ⟨distinct, by simp [empty, hasNode]⟩⟩

section
variable {nodes : List Node} {edges : List Edge}

theorem hasNode_foldl_empty (distinct : (nodes.map Node.id).Nodup) (id : NodeId) :
    (nodes.foldl withNode empty).hasNode id ↔ id ∈ nodes.map Node.id := by
  rw [hasNode_eq_isSome, Option.isSome_iff_exists]
  simp only [(acceptsNodes_empty.mpr distinct).node?_foldl]
  simp [empty, node?]

theorem edge?_foldl_empty (id : EdgeId) : (nodes.foldl withNode empty).edge? id = none := by
  rw [edge?, edges_foldl_withNode]
  simp [empty]

theorem fits_iff : Fits nodes edges ↔
    empty.AcceptsNodes nodes ∧ (nodes.foldl withNode empty).AcceptsEdges edges := by
  rw [acceptsNodes_empty]
  constructor
  · intro fits
    have present := hasNode_foldl_empty fits.nodeIds
    refine ⟨fits.nodeIds, fits.edgeIds, fits.targets, ?_⟩
    intro edge member
    obtain ⟨source, target⟩ := fits.ends edge member
    refine ⟨edge?_foldl_empty edge.id, (present _).mpr source, (present _).mpr target, ?_⟩
    intro id other stored
    rw [edge?_foldl_empty] at stored
    cases stored
  · intro ⟨distinct, accepts⟩
    have present := hasNode_foldl_empty distinct
    refine ⟨distinct, accepts.ids, ?_, accepts.targets⟩
    intro edge member
    have taken := accepts.each edge member
    exact ⟨(present _).mp taken.source, (present _).mp taken.target⟩

theorem edit_addParts_eq_ok {graph : Graph} : empty.edit (addParts nodes edges) = (.ok (), graph) ↔
    Fits nodes edges ∧ assemble (nodes.mergeSort fun first second => first.id ≤ second.id)
      (edges.mergeSort Edge.targetFirst) = graph := by
  have sortedNodes := List.mergeSort_perm nodes fun first second => first.id ≤ second.id
  have sortedEdges := List.mergeSort_perm edges Edge.targetFirst
  have sorted : Fits nodes edges ↔ Fits (nodes.mergeSort fun first second => first.id ≤ second.id)
      (edges.mergeSort Edge.targetFirst) :=
    ⟨fun fits => fits.perm sortedNodes sortedEdges, fun fits => fits.perm sortedNodes.symm sortedEdges.symm⟩
  rw [addParts, edit_bind_eq_ok, sorted, fits_iff]
  constructor
  · intro ⟨_, middle, ranNodes, ranEdges⟩
    obtain ⟨accepts, same⟩ := edit_addNodes_eq_ok.mp ranNodes
    subst same
    obtain ⟨taken, same⟩ := (accepts.wellFormed wellFormed_empty).edit_addEdges_eq_ok.mp ranEdges
    exact ⟨⟨accepts, taken⟩, same⟩
  · intro ⟨⟨accepts, taken⟩, same⟩
    exact ⟨(), _, edit_addNodes_eq_ok.mpr ⟨accepts, rfl⟩,
      (accepts.wellFormed wellFormed_empty).edit_addEdges_eq_ok.mpr ⟨taken, same⟩⟩

theorem ofParts_eq_ok {graph : Graph} : ofParts nodes edges = .ok graph ↔
    Fits nodes edges ∧ assemble (nodes.mergeSort fun first second => first.id ≤ second.id)
      (edges.mergeSort Edge.targetFirst) = graph := by
  rw [← edit_addParts_eq_ok, ofParts]
  obtain ⟨result, after⟩ := empty.edit (addParts nodes edges)
  cases result <;> simp

namespace Fits

theorem wellFormed (fits : Fits nodes edges) : (assemble nodes edges).WellFormed := by
  obtain ⟨accepts, taken⟩ := fits_iff.mp fits
  exact taken.wellFormed (accepts.wellFormed wellFormed_empty)

theorem node? (fits : Fits nodes edges) {id : NodeId} {node : Node} :
    (assemble nodes edges).node? id = some node ↔ node ∈ nodes ∧ node.id = id := by
  rw [assemble, Graph.node?, nodes_foldl_withEdge]
  exact (acceptsNodes_empty.mpr fits.nodeIds).node?_foldl.trans (by simp [empty, Graph.node?])

theorem edge? (fits : Fits nodes edges) {id : EdgeId} {edge : Edge} :
    (assemble nodes edges).edge? id = some edge ↔ edge ∈ edges ∧ edge.id = id := by
  rw [assemble, (fits_iff.mp fits).2.edge?_foldl, edge?_foldl_empty]
  simp

theorem perm_nodeList (fits : Fits nodes edges) : (assemble nodes edges).nodeList.Perm nodes := by
  apply (List.perm_ext_iff_of_nodup fits.wellFormed.nodup_nodeIds.of_map fits.nodeIds.of_map).mpr
  intro node
  rw [fits.wellFormed.mem_nodeList, fits.node?, and_iff_left rfl]

theorem perm_edgeList (fits : Fits nodes edges) : (assemble nodes edges).edgeList.Perm edges := by
  apply (List.perm_ext_iff_of_nodup fits.wellFormed.nodup_edgeList fits.edgeIds.of_map).mpr
  intro edge
  rw [fits.wellFormed.mem_edgeList, fits.edge?, and_iff_left rfl]

end Fits
end

namespace WellFormed

variable {graph : Graph}

theorem fits (wf : graph.WellFormed) : Fits graph.nodeList graph.edgeList where
  nodeIds := wf.nodup_nodeIds
  edgeIds := wf.nodup_edgeIds
  targets := wf.nodup_targets
  ends edge member := by
    have present {id : NodeId} (known : graph.hasNode id) : id ∈ graph.nodeList.map Node.id := by
      obtain ⟨node, found, own⟩ := wf.exists_node known
      exact List.mem_map.mpr ⟨node, wf.mem_nodeList.mpr (own.symm ▸ found), own⟩
    have ends := wf.ends (wf.mem_edgeList.mp member)
    exact ⟨present ends.1, present ends.2⟩

/-- A well-formed graph is rebuilt from its nodes and edges, however they are listed. -/
theorem ofParts (wf : graph.WellFormed) {nodes : List Node} {edges : List Edge} (sameNodes : nodes.Perm graph.nodeList)
    (sameEdges : edges.Perm graph.edgeList) :
    ∃ rebuilt, Graph.ofParts nodes edges = .ok rebuilt ∧ rebuilt.nodes = graph.nodes ∧ rebuilt.edges = graph.edges := by
  have sortedNodes := (List.mergeSort_perm nodes fun first second => first.id ≤ second.id).trans sameNodes
  have sortedEdges := (List.mergeSort_perm edges Edge.targetFirst).trans sameEdges
  have fits := wf.fits.perm sortedNodes sortedEdges
  refine ⟨_, ofParts_eq_ok.mpr ⟨wf.fits.perm sameNodes sameEdges, rfl⟩, ?_, ?_⟩
  · refine Std.ExtTreeMap.ext_getElem? fun id => Option.ext fun node => fits.node?.trans ?_
    rw [sortedNodes.mem_iff, wf.mem_nodeList]
    constructor
    · rintro ⟨stored, rfl⟩
      exact stored
    · intro stored
      have own := wf.node_id stored
      exact ⟨own.symm ▸ stored, own⟩
  · refine Std.ExtTreeMap.ext_getElem? fun id => Option.ext fun edge => fits.edge?.trans ?_
    rw [sortedEdges.mem_iff, wf.mem_edgeList]
    constructor
    · rintro ⟨stored, rfl⟩
      exact stored
    · intro stored
      have own := wf.edge_id stored
      exact ⟨own.symm ▸ stored, own⟩

end WellFormed
end Graph
end OpGraph
