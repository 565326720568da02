import OpGraph.Proofs.Histories
import OpGraph.Proofs.Rewriting

/-! What is left once the dead nodes are removed. Whatever feeds a node that leads to a result leads to one as well,
so the nodes that stay keep all their edges from before but those to dead nodes, and each of them leads to a result
still: there is nothing to remove a second time. -/

namespace OpGraph.Graph

def LeadsToResult (graph : Graph) (id : NodeId) : Prop :=
  ∃ target node, graph.node? target = some node ∧ node.kind = .result ∧ graph.Reaches id target

/-- The second graph is the part of the first one that leads to a result. -/
structure LivePart (before after : Graph) : Prop where
  wellFormed : after.WellFormed
  node : ∀ id node, after.node? id = some node ↔ before.node? id = some node ∧ before.LeadsToResult id
  edge : ∀ id edge, after.edge? id = some edge ↔
    before.edge? id = some edge ∧ before.LeadsToResult edge.source.node ∧ before.LeadsToResult edge.target.node
  producer : ∀ port, before.LeadsToResult port.node → after.producer? port = before.producer? port
  live : ∀ id, after.hasNode id → after.LeadsToResult id

variable {graph after : Graph}

theorem leadsToResult_of_kind {id : NodeId} {node : Node} (found : graph.node? id = some node)
    (kind : node.kind = .result) : graph.LeadsToResult id :=
  ⟨id, node, found, kind, .refl⟩

theorem LeadsToResult.hasNode (wf : graph.WellFormed) {id : NodeId} (leads : graph.LeadsToResult id) :
    graph.hasNode id := by
  obtain ⟨target, node, found, _, path⟩ := leads
  exact wf.hasNode_of_reaches (hasNode_of_node? found) path

/-! ## Dead nodes -/

theorem leadsToResult_iff (wf : graph.WellFormed) {id : NodeId} :
    graph.LeadsToResult id ↔ ∃ result ∈ graph.nodesOfKind .result, graph.Reaches id result.id := by
  constructor
  · intro ⟨target, node, found, kind, path⟩
    have own := wf.node_id found
    subst own
    exact ⟨node, wf.mem_nodesOfKind.mpr ⟨found, kind⟩, path⟩
  · intro ⟨result, member, path⟩
    obtain ⟨found, kind⟩ := wf.mem_nodesOfKind.mp member
    exact ⟨result.id, result, found, kind, path⟩

theorem not_mem_deadNodes_iff (wf : graph.WellFormed) (results : graph.nodesOfKind .result ≠ []) {id : NodeId}
    (present : graph.hasNode id) : id ∉ graph.deadNodes ↔ graph.LeadsToResult id := by
  rw [mem_deadNodes wf, leadsToResult_iff wf]
  simp [present, results]

theorem deadNodes_eq_nil (wf : graph.WellFormed) (live : ∀ id, graph.hasNode id → graph.LeadsToResult id) :
    graph.deadNodes = [] := by
  apply List.eq_nil_iff_forall_not_mem.mpr
  intro id dead
  obtain ⟨present, results, _⟩ := (mem_deadNodes wf).mp dead
  exact (not_mem_deadNodes_iff wf results present).mpr (live id present) dead

theorem edit_removeDeadNodes_nil (none : graph.deadNodes = []) : graph.edit removeDeadNodes = (.ok {}, graph) := by
  rw [removeDeadNodes, edit_bind_ok (edit_get graph), none]
  rfl

/-! ## What is left -/

theorem Pruned.livePart (pruned : Pruned graph after graph.deadNodes) (wf : graph.WellFormed)
    (results : graph.nodesOfKind .result ≠ []) : LivePart graph after := by
  have leads {id : NodeId} (present : graph.hasNode id) : id ∉ graph.deadNodes ↔ graph.LeadsToResult id :=
    not_mem_deadNodes_iff wf results present
  refine { wellFormed := pruned.wellFormed, node := ?node, edge := ?edge, producer := ?producer, live := ?live }
  case node =>
    intro id node
    rw [pruned.node?]
    constructor
    · intro found
      split at found
      · cases found
      next stays => exact ⟨found, (leads (hasNode_of_node? found)).mp stays⟩
    · intro ⟨found, live⟩
      rw [if_neg ((leads (hasNode_of_node? found)).mpr live), found]
  case edge =>
    intro id edge
    rw [pruned.edge?, Option.filter_eq_some_iff]
    apply and_congr_right
    intro stored
    rw [← leads (wf.hasNode_source stored), ← leads (wf.hasNode_target stored)]
    simp
  case producer =>
    intro port live
    have stays := (leads (live.hasNode wf)).mpr live
    rw [pruned.producer?, if_neg stays]
    cases fed : graph.producer? port with
    | none => rfl
    | some source =>
      have producerStays := not_mem_deadNodes_of_feeds wf (wf.feeds_of_producer? fed) stays
      simp [Option.filter, producerStays]
  case live =>
    intro id stays
    obtain ⟨present, live⟩ := pruned.hasNode_iff.mp stays
    obtain ⟨target, node, found, kind, path⟩ := (leads present).mp live
    have targetLive := (leads (hasNode_of_node? found)).mpr (leadsToResult_of_kind found kind)
    obtain ⟨_, path⟩ := pruned.reaches wf (not_mem_deadNodes_of_feeds wf) path targetLive
    refine ⟨target, node, ?_, kind, path⟩
    rw [pruned.node?, if_neg targetLive, found]

/-- With a result in the graph, just what leads to one is left, and removing the dead nodes again removes nothing;
without one the graph is left alone. -/
theorem cleanup_leaves_live_part (wf : graph.WellFormed) :
    ((∃ id node, graph.node? id = some node ∧ node.kind = .result) →
      ∃ stats after, graph.edit removeDeadNodes = (.ok stats, after) ∧ LivePart graph after ∧
        after.edit removeDeadNodes = (.ok {}, after)) ∧
    ((∀ id node, graph.node? id = some node → node.kind ≠ .result) →
      graph.edit removeDeadNodes = (.ok {}, graph)) := by
  constructor
  · intro ⟨id, node, found, kind⟩
    have own := wf.node_id found
    subst own
    have results := List.ne_nil_of_mem (wf.mem_nodesOfKind.mpr ⟨found, kind⟩)
    have part := wf.pruned_withoutDead.livePart wf results
    have settled := edit_removeDeadNodes_nil (deadNodes_eq_nil part.wellFormed part.live)
    exact ⟨_, graph.withoutDead, edit_removeDeadNodes wf, part, settled⟩
  · intro absent
    apply edit_removeDeadNodes_nil
    apply List.eq_nil_iff_forall_not_mem.mpr
    intro id dead
    obtain ⟨result, member⟩ := List.exists_mem_of_ne_nil _ ((mem_deadNodes wf).mp dead).2.1
    obtain ⟨found, kind⟩ := wf.mem_nodesOfKind.mp member
    exact absent _ result found kind

/-- A circle that leads to a result, and one that hangs off it and leads nowhere. -/
def overgrown : Graph := Graph.empty.history
  [.addNode { id := "a", kind := .squeeze }, .addNode { id := "b", kind := .squeeze }, .addNode (.result "z"),
    .addNode { id := "x", kind := .squeeze }, .addNode { id := "y", kind := .shapeOf }, .connect ⟨"a", 0⟩ ⟨"b", 0⟩,
    .connect ⟨"b", 0⟩ ⟨"a", 0⟩, .connect ⟨"b", 0⟩ ⟨"z", 0⟩, .connect ⟨"b", 0⟩ ⟨"x", 0⟩, .connect ⟨"x", 0⟩ ⟨"y", 0⟩,
    .connect ⟨"y", 0⟩ ⟨"x", 1⟩]

/-- The circle with the result is left; without the result the graph is left alone. -/
theorem cleanup_leaves_live_part_overgrown : overgrown.WellFormed ∧
    (∃ stats after, overgrown.edit removeDeadNodes = (.ok stats, after) ∧ LivePart overgrown after ∧
      after.edit removeDeadNodes = (.ok {}, after) ∧ after.nodeCount = 3 ∧ after.edgeCount = 3) ∧
    (overgrown.withoutNode "z").edit removeDeadNodes = (.ok {}, overgrown.withoutNode "z") := by
  have wf : overgrown.WellFormed := wellFormed_empty.history _
  have found : overgrown.node? "z" = some (.result "z") := by decide +kernel
  have sizes : (overgrown.edit removeDeadNodes).2.nodeCount = 3 ∧ (overgrown.edit removeDeadNodes).2.edgeCount = 3 := by
    decide +kernel
  have kinds : ∀ node ∈ (overgrown.withoutNode "z").nodeList, node.kind ≠ .result := by decide +kernel
  obtain ⟨stats, after, ran, part, again⟩ := (cleanup_leaves_live_part wf).1 ⟨"z", .result "z", found, rfl⟩
  rw [ran] at sizes
  refine ⟨wf, ⟨stats, after, ran, part, again, sizes⟩, (cleanup_leaves_live_part (wf.withoutNode "z")).2 ?_⟩
  intro id node known
  have own := (wf.withoutNode "z").node_id known
  subst own
  exact kinds node ((wf.withoutNode "z").mem_nodeList.mpr known)

end OpGraph.Graph
