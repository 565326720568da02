import OpGraph.Container.Header
import OpGraph.Graph.Comparison
import OpGraph.Graph.Fingerprint
import OpGraph.Inference.Basic
import OpGraph.Pass.Cleanup
import OpGraph.Proofs.BackwardSearch
import OpGraph.Proofs.Producers
import OpGraph.Proofs.Rebuilding
import OpGraph.Proofs.TopologicalOrder

/-! Graphs with the same nodes and joined ports, whatever the ids of their edges and the order of their adjacency
lists. No query tells them apart. Some ask for nodes and producers alone; those that go through a list of edges look
at the ends of each, and sort or count what they see. -/

namespace OpGraph

def Edge.link (edge : Edge) : Port × Port := (edge.source, edge.target)

namespace Graph
open Std (ExtTreeMap ExtTreeSet)

namespace WellFormed

variable {graph : Graph}

theorem nodup_links (wf : graph.WellFormed) : (graph.edgeList.map Edge.link).Nodup := by
  apply List.Nodup.of_map Prod.snd
  rw [List.map_map]
  exact wf.nodup_targets

theorem mem_links (wf : graph.WellFormed) {source target : Port} :
    (source, target) ∈ graph.edgeList.map Edge.link ↔ graph.Joins source target := by
  simp only [List.mem_map, wf.mem_edgeList, Edge.link, Prod.mk.injEq, wf.joins_iff]

end WellFormed

structure SameStructure (first second : Graph) : Prop where
  wellFormed : first.WellFormed
  otherWellFormed : second.WellFormed
  nodes : first.nodes = second.nodes
  joins : ∀ source target, first.Joins source target ↔ second.Joins source target

namespace SameStructure

variable {graph first second : Graph}

theorem symm (same : SameStructure first second) : SameStructure second first :=
  ⟨same.otherWellFormed, same.wellFormed, same.nodes.symm, fun source target => (same.joins source target).symm⟩

theorem of_producers (wf : first.WellFormed) (otherWf : second.WellFormed)
    (node? : ∀ id, first.node? id = second.node? id)
    (producer? : ∀ port, first.producer? port = second.producer? port) : SameStructure first second := by
  refine ⟨wf, otherWf, ExtTreeMap.ext_getElem? node?, ?_⟩
  intro source target
  rw [← wf.producer?_eq_some_iff, ← otherWf.producer?_eq_some_iff, producer?]

theorem of_links (wf : first.WellFormed) (otherWf : second.WellFormed) (nodes : first.nodes = second.nodes)
    (links : (first.edgeList.map Edge.link).Perm (second.edgeList.map Edge.link)) : SameStructure first second := by
  refine ⟨wf, otherWf, nodes, ?_⟩
  intro source target
  rw [← wf.mem_links, ← otherWf.mem_links, links.mem_iff]

/-- What is loaded from the parts of a graph, in any order, has its structure. -/
theorem of_ofParts (wf : graph.WellFormed) {nodes : List Node} {edges : List Edge}
    (sameNodes : nodes.Perm graph.nodeList)
    (sameEdges : edges.Perm graph.edgeList) {loaded : Graph} (read : ofParts nodes edges = .ok loaded) :
    SameStructure graph loaded := by
  obtain ⟨rebuilt, again, nodesAgain, edgesAgain⟩ := wf.ofParts sameNodes sameEdges
  cases read.symm.trans again
  have wellFormed := (ofParts_eq_ok.mp read).2 ▸
    ((ofParts_eq_ok.mp read).1.perm (List.mergeSort_perm _ _) (List.mergeSort_perm _ _)).wellFormed
  refine ⟨wf, wellFormed, nodesAgain.symm, ?_⟩
  intro source target
  simp only [Joins, edge?, edgesAgain]

/-! ## Nodes and producers -/

variable (same : SameStructure first second)
include same

theorem node? (id : NodeId) : first.node? id = second.node? id := by
  rw [Graph.node?, Graph.node?, same.nodes]

theorem hasNode (id : NodeId) : first.hasNode id = second.hasNode id := by
  rw [Graph.hasNode, Graph.hasNode, same.nodes]

theorem nodeCount : first.nodeCount = second.nodeCount := congrArg ExtTreeMap.size same.nodes

theorem nodeList : first.nodeList = second.nodeList := by
  rw [Graph.nodeList, Graph.nodeList, same.nodes]

theorem nodesOfKind (kind : NodeKind) : first.nodesOfKind kind = second.nodesOfKind kind := by
  rw [Graph.nodesOfKind, Graph.nodesOfKind, same.nodeList]

theorem uniqueId (stem : String) : first.uniqueId stem = second.uniqueId stem := by
  have search (attempts number : Nat) :
      first.firstUnused stem attempts number = second.firstUnused stem attempts number := by
    induction attempts generalizing number with
    | zero => rfl
    | succ attempts ih => rw [firstUnused, firstUnused, same.hasNode, ih]
  rw [Graph.uniqueId, Graph.uniqueId, same.hasNode, same.nodeCount, search]

theorem producer? (port : Port) : first.producer? port = second.producer? port :=
  same.wellFormed.producer?_eq fun source =>
    (same.joins source port).trans same.otherWellFormed.producer?_eq_some_iff.symm

theorem isSome_inEdge? (port : Port) : (first.inEdge? port).isSome = (second.inEdge? port).isSome := by
  rw [Graph.isSome_inEdge?, Graph.isSome_inEdge?, same.producer?]

/-! ## Lists of edges -/

theorem perm_links : (first.edgeList.map Edge.link).Perm (second.edgeList.map Edge.link) := by
  apply (List.perm_ext_iff_of_nodup same.wellFormed.nodup_links same.otherWellFormed.nodup_links).mpr
  intro (source, target)
  rw [same.wellFormed.mem_links, same.otherWellFormed.mem_links]
  exact same.joins source target

theorem perm_filter (listed : Port × Port → Bool) : ((first.edgeList.filter (listed ∘ Edge.link)).map Edge.link).Perm
    ((second.edgeList.filter (listed ∘ Edge.link)).map Edge.link) := by
  rw [← List.filter_map, ← List.filter_map]
  exact same.perm_links.filter listed

theorem perm_outgoing (id : NodeId) :
    ((first.outgoingEdges id).map Edge.link).Perm ((second.outgoingEdges id).map Edge.link) :=
  ((same.wellFormed.perm_outgoingEdges id).map Edge.link).trans
    ((same.perm_filter fun link => link.1.node == id).trans
      ((same.otherWellFormed.perm_outgoingEdges id).map Edge.link).symm)

theorem perm_incoming (id : NodeId) :
    ((first.incomingEdges id).map Edge.link).Perm ((second.incomingEdges id).map Edge.link) :=
  ((same.wellFormed.perm_incomingEdges id).map Edge.link).trans
    ((same.perm_filter fun link => link.2.node == id).trans
      ((same.otherWellFormed.perm_incomingEdges id).map Edge.link).symm)

theorem edgeCount : first.edgeCount = second.edgeCount := by
  have lengths := same.perm_links.length_eq
  rwa [List.length_map, List.length_map, length_edgeList, length_edgeList] at lengths

theorem length_outgoing (id : NodeId) :
    (first.outgoing[id]?.getD []).length = (second.outgoing[id]?.getD []).length := by
  have lengths := (same.perm_outgoing id).length_eq
  rwa [List.length_map, List.length_map, ← same.wellFormed.length_outgoing,
    ← same.otherWellFormed.length_outgoing] at lengths

theorem length_incoming (id : NodeId) :
    (first.incoming[id]?.getD []).length = (second.incoming[id]?.getD []).length := by
  have lengths := (same.perm_incoming id).length_eq
  rwa [List.length_map, List.length_map, ← same.wellFormed.length_incoming,
    ← same.otherWellFormed.length_incoming] at lengths

theorem length_filter_outgoing (id : NodeId) (listed : Port × Port → Bool) :
    ((first.outgoingEdges id).filter (listed ∘ Edge.link)).length =
      ((second.outgoingEdges id).filter (listed ∘ Edge.link)).length := by
  have lengths := ((same.perm_outgoing id).filter listed).length_eq
  rwa [List.filter_map, List.filter_map, List.length_map, List.length_map] at lengths

theorem length_outEdges (port : Port) : (first.outEdges port).length = (second.outEdges port).length :=
  same.length_filter_outgoing port.node fun link => link.1.index == port.index

theorem connectedInputs (id : NodeId) : first.connectedInputs id = second.connectedInputs id := by
  have sorts : Sorts fun first second : UInt64 => decide (first ≤ second) :=
    ⟨by simpa using fun _ _ _ => UInt64.le_trans, by simpa using UInt64.le_total⟩
  have indices := (same.perm_incoming id).map fun link => link.2.index
  rw [List.map_map, List.map_map] at indices
  refine sorts.eq_of_perm indices fun _ _ _ _ below above => ?_
  exact UInt64.le_antisymm (of_decide_eq_true below) (of_decide_eq_true above)

theorem connections : first.connections = second.connections := by
  have sorts : Sorts fun first second : Port × Port =>
      ((compare first.1 second.1).then (compare first.2 second.2)).isLE :=
    .of_compare (compareLex (compareOn Prod.fst) (compareOn Prod.snd)) fun _ _ => rfl
  refine sorts.eq_of_perm same.perm_links fun link _ other _ below above => ?_
  have tie :=
    @Std.OrientedCmp.isLE_antisymm _ (compareLex (compareOn Prod.fst) (compareOn Prod.snd)) _ link other below above
  obtain ⟨source, target⟩ := compareLex_eq_eq.mp tie
  exact Prod.ext (Std.LawfulEqOrd.eq_of_compare source) (Std.LawfulEqOrd.eq_of_compare target)

/-! ## Orders and values -/

theorem inDegrees : first.inDegrees = second.inDegrees := by
  have lengths (id : NodeId) := (same.perm_filter fun link => link.2.node == id).length_eq
  simp only [List.length_map] at lengths
  unfold Graph.inDegrees
  rw [same.nodes]
  congr 1
  funext id _
  exact congrArg Int.ofNat (lengths id)

theorem startSorting : first.startSorting = second.startSorting := by
  rw [Graph.startSorting, Graph.startSorting, same.inDegrees]

theorem releaseAll (sorting : Sorting) (id : NodeId) :
    first.releaseAll sorting id = second.releaseAll sorting id := by
  have lengths (other : NodeId) := same.length_filter_outgoing id fun link => link.2.node == other
  rw [Graph.releaseAll, Graph.releaseAll, Sorting.mk.injEq]
  constructor
  · apply ExtTreeMap.ext_getElem?
    intro other
    rw [getElem?_foldl_release, getElem?_foldl_release]
    exact congrArg (fun count : Nat => sorting.counters[other]?.map (· - (count : Int))) (lengths other)
  · apply sortIds_eq_of_perm
    rw [List.perm_iff_count]
    intro other
    rw [count_foldl_release, count_foldl_release]
    exact congrArg (fun count => sorting.stack.count other + (frees count sorting.counters[other]?).toNat)
      (lengths other)

theorem place (count : Nat) (sorting : Sorting) : first.place count sorting = second.place count sorting := by
  induction count generalizing sorting with
  | zero => rfl
  | succ count ih => simp only [Graph.place, same.releaseAll, ih]

theorem topologicalOrder : first.topologicalOrder = second.topologicalOrder := by
  rw [Graph.topologicalOrder, Graph.topologicalOrder, same.nodeCount, same.startSorting, same.place]

theorem infer : first.infer = second.infer := by
  have input (known : Known) (node : Node) (port : UInt64) :
      Inference.input first known node port = Inference.input second known node port := by
    rw [Inference.input, Inference.input, same.producer?]
  have step : Inference.step first = Inference.step second := by
    funext known id
    simp only [Inference.step, Inference.inferNode, Inference.squeeze, same.node?, same.isSome_inEdge?, input]
  rw [Graph.infer, Graph.infer, same.topologicalOrder, step]

theorem feeds_of_feeds {producer consumer : NodeId} (feeds : first.Feeds producer consumer) :
    second.Feeds producer consumer := by
  obtain ⟨index, source, fed, own⟩ := same.wellFormed.exists_producer?_of_feeds feeds
  rw [same.producer?] at fed
  exact own ▸ same.otherWellFormed.feeds_of_producer? fed

theorem reachableTo (targets : List NodeId) : first.reachableTo targets = second.reachableTo targets := by
  have feeds : first.Feeds = second.Feeds := by
    funext producer consumer
    exact propext ⟨same.feeds_of_feeds, same.symm.feeds_of_feeds⟩
  apply ExtTreeSet.ext_mem
  intro id
  simp only [mem_reachableTo same.wellFormed, mem_reachableTo same.otherWellFormed, same.hasNode, Reaches, feeds]

theorem deadNodes : first.deadNodes = second.deadNodes := by
  rw [Graph.deadNodes, Graph.deadNodes, same.nodesOfKind, same.nodeList, same.reachableTo]

theorem structureJson : first.structureJson = second.structureJson := by
  rw [Graph.structureJson, Graph.structureJson, same.nodeList, same.connections]

theorem fingerprint : first.fingerprint = second.fingerprint := congrArg Json.digest same.structureJson

theorem flags : FormatFlags.ofGraph first = FormatFlags.ofGraph second := by
  rw [FormatFlags.ofGraph, FormatFlags.ofGraph, same.nodesOfKind, same.nodesOfKind]

end SameStructure

/-! ## Comparison -/

/-- The second graph answers all questions of a comparison as the first one does, well-formed or not. -/
structure SameAnswers (first second : Graph) : Prop where
  node? : ∀ id, first.node? id = second.node? id
  producer? : ∀ port, first.producer? port = second.producer? port
  consumers : ∀ id : NodeId, (first.outgoing[id]?.getD []).length = (second.outgoing[id]?.getD []).length
  inputs : ∀ id, first.connectedInputs id = second.connectedInputs id
  edgeCount : first.edgeCount = second.edgeCount

theorem SameAnswers.refl (graph : Graph) : SameAnswers graph graph :=
  ⟨fun _ => rfl, fun _ => rfl, fun _ => rfl, fun _ => rfl, rfl⟩

theorem SameStructure.answers {first second : Graph} (same : SameStructure first second) : SameAnswers first second :=
  ⟨same.node?, same.producer?, same.length_outgoing, same.connectedInputs, same.edgeCount⟩

theorem SameAnswers.differences {graph otherGraph reference otherReference : Graph}
    (same : SameAnswers graph otherGraph)
    (sameReference : SameAnswers reference otherReference) (last : NodeId) (options : CompareOptions) :
    graph.differences reference last options = otherGraph.differences otherReference last options := by
  have meetInput : Pairing.meetInput graph reference = Pairing.meetInput otherGraph otherReference := by
    funext id counterpart pairing index
    simp only [Pairing.meetInput, same.producer?, sameReference.producer?]
  have aspects : Pairing.aspects graph reference = Pairing.aspects otherGraph otherReference := by
    funext options node expected
    simp only [Pairing.aspects, same.consumers, same.inputs, sameReference.consumers, sameReference.inputs]
  have meet : Pairing.meet graph reference options = Pairing.meet otherGraph otherReference options := by
    funext pairing id counterpart
    simp only [Pairing.meet, same.node?, sameReference.node?, aspects, same.inputs, sameReference.inputs, meetInput]
  have walk (pairs : Nat) (pairing : Pairing) :
      pairing.walk graph reference options pairs = pairing.walk otherGraph otherReference options pairs := by
    induction pairs generalizing pairing with
    | zero => rfl
    | succ pairs ih => simp only [Pairing.walk, meet, ih]
  simp only [Graph.differences, List.filterMap_cons, hasNode_eq_isSome, same.node?, sameReference.node?,
    same.edgeCount, walk]

end Graph
end OpGraph
