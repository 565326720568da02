import OpGraph.Proofs.Histories
import OpGraph.Proofs.Rewriting

/-! What is reported of the removal of dead nodes against how many edges are gone. A node that is removed takes its
edges with it, so an edge between two dead nodes is counted at the first of them alone, and one from a live node at
its only dead end. An edge that starts and ends at one dead node has both ends there, and is counted twice. -/

namespace OpGraph

namespace Graph

variable {graph after : Graph}

def loopsAt (graph : Graph) (ids : List NodeId) : List Edge :=
  graph.edgeList.filter fun edge => edge.source.node = edge.target.node ∧ edge.source.node ∈ ids

def lostLoops (before after : Graph) : List Edge :=
  before.edgeList.filter fun edge => edge.source.node = edge.target.node ∧ ¬ after.hasNode edge.source.node

/-! ## Removing one node -/

theorem WellFormed.perm_edgeList_withoutNode (wf : graph.WellFormed) (id : NodeId) :
    (graph.withoutNode id).edgeList.Perm
      (graph.edgeList.filter fun edge => edge.source.node != id && edge.target.node != id) := by
  apply (List.perm_ext_iff_of_nodup (wf.withoutNode id).nodup_edgeList (wf.nodup_edgeList.filter _)).mpr
  intro edge
  rw [(wf.withoutNode id).mem_edgeList, wf.edge?_withoutNode, List.mem_filter, wf.mem_edgeList,
    Option.filter_eq_some_iff]

/-- What two tests accept is counted twice, and what neither accepts not at all. -/
theorem length_filter_add_length_filter {α : Type} (first second : α → Bool) (items : List α) :
    (items.filter first).length + (items.filter second).length =
      (items.filter fun item => first item || second item).length +
        (items.filter fun item => first item && second item).length := by
  induction items with
  | nil => rfl
  | cons item items ih =>
    cases ofFirst : first item <;> cases ofSecond : second item <;> simp [ofFirst, ofSecond] <;> omega

/-- The report of one removal exceeds what is gone by the edges from the node to itself. -/
theorem WellFormed.edgesRemoved_removal (wf : graph.WellFormed) (id : NodeId) :
    (graph.removal id).edgesRemoved + (graph.withoutNode id).edgeCount =
      graph.edgeCount + (graph.loopsAt [id]).length := by
  have ends := length_filter_add_length_filter (fun edge => edge.target.node == id) (fun edge => edge.source.node == id)
    graph.edgeList
  have loops : graph.loopsAt [id] = graph.edgeList.filter fun edge =>
      edge.target.node == id && edge.source.node == id := by
    apply List.filter_congr
    intro edge _
    by_cases source : edge.source.node = id
    · simp [source, beq_eq_decide, eq_comm]
    · simp [source]
  have rest : (graph.withoutNode id).edgeCount =
      (graph.edgeList.filter fun edge => !(edge.target.node == id || edge.source.node == id)).length := by
    rw [← length_edgeList, (wf.perm_edgeList_withoutNode id).length_eq]
    simp only [Bool.not_or, Bool.and_comm, bne]
  have whole := List.length_eq_length_filter_add (l := graph.edgeList) fun edge =>
    edge.target.node == id || edge.source.node == id
  have removed : (graph.removal id).edgesRemoved =
      (graph.incomingEdges id).length + (graph.outgoingEdges id).length := rfl
  rw [length_edgeList] at whole
  rw [removed, (wf.perm_incomingEdges id).length_eq, (wf.perm_outgoingEdges id).length_eq, loops, rest]
  omega

/-- Removing a node leaves the loops at the others. -/
theorem WellFormed.length_loopsAt_cons (wf : graph.WellFormed) {id : NodeId} {ids : List NodeId} (absent : id ∉ ids) :
    (graph.loopsAt (id :: ids)).length = (graph.loopsAt [id]).length + ((graph.withoutNode id).loopsAt ids).length := by
  have split := List.length_eq_length_filter_add (l := graph.loopsAt (id :: ids)) fun edge => edge.source.node == id
  have here : (graph.loopsAt (id :: ids)).filter (fun edge => edge.source.node == id) = graph.loopsAt [id] := by
    rw [loopsAt, loopsAt, List.filter_filter]
    apply List.filter_congr
    intro edge _
    by_cases source : edge.source.node = id <;> simp [source]
  have others : ((graph.loopsAt (id :: ids)).filter fun edge => !(edge.source.node == id)).length =
      ((graph.withoutNode id).loopsAt ids).length := by
    rw [loopsAt, loopsAt, ((wf.perm_edgeList_withoutNode id).filter _).length_eq, List.filter_filter,
      List.filter_filter]
    congr 1
    apply List.filter_congr
    intro edge _
    by_cases loop : edge.source.node = edge.target.node
    · by_cases there : edge.target.node = id
      · simp [loop, there, absent]
      · simp [loop, there, bne, beq_eq_false_iff_ne.mpr there]
    · simp [loop]
  rw [split, here, others]

/-! ## Removing all -/

theorem WellFormed.edgesRemoved_removals (wf : graph.WellFormed) {ids : List NodeId} (distinct : ids.Nodup) :
    (PassStats.total (graph.removals ids)).edgesRemoved + (ids.foldl Graph.withoutNode graph).edgeCount =
      graph.edgeCount + (graph.loopsAt ids).length := by
  induction ids generalizing graph with
  | nil => simp [removals, loopsAt, PassStats.total]
  | cons id ids ih =>
    obtain ⟨absent, distinct⟩ := List.nodup_cons.mp distinct
    have first := wf.edgesRemoved_removal id
    have rest := ih (wf.withoutNode id) distinct
    rw [removals, PassStats.edgesRemoved_total_cons, List.foldl_cons, wf.length_loopsAt_cons absent]
    omega

/-- The nodes are reported as they are removed. Of the edges each is reported once that is gone, but the loops at dead
nodes twice, so the report is right exactly if there are none. -/
theorem cleanup_balances (wf : graph.WellFormed) {stats : PassStats}
    (ran : graph.edit removeDeadNodes = (.ok stats, after)) :
    stats.nodesRemoved + after.nodeCount = graph.nodeCount ∧
      stats.edgesRemoved + after.edgeCount = graph.edgeCount + (lostLoops graph after).length ∧
      (stats.edgesRemoved + after.edgeCount = graph.edgeCount ↔ lostLoops graph after = []) := by
  have nodesRemoved := removeDeadNodes_nodesRemoved ran
  rw [edit_removeDeadNodes wf] at ran
  cases ran
  have pruned := wf.pruned_withoutDead
  have nodes := pruned.nodeCount (nodup_deadNodes wf) fun id dead => ((mem_deadNodes wf).mp dead).1
  have edges := wf.edgesRemoved_removals (nodup_deadNodes wf)
  have lost : lostLoops graph graph.withoutDead = graph.loopsAt graph.deadNodes := by
    apply List.filter_congr
    intro edge member
    have present := wf.hasNode_source (wf.mem_edgeList.mp member)
    simp [pruned.hasNode_iff, present]
  rw [← lost] at edges
  refine ⟨by omega, edges, ?_⟩
  rw [← List.length_eq_zero_iff]
  rw [withoutDead] at edges ⊢
  omega

/-- Two dead nodes and an edge between them, one from a live node, and one from a dead node to itself. -/
def withered : Graph := Graph.empty.history
  [.addNode (.parameter "p" none), .addNode (.result "z"), .addNode { id := "x", kind := .squeeze },
    .addNode { id := "y", kind := .shapeOf }, .connect ⟨"p", 0⟩ ⟨"z", 0⟩, .connect ⟨"p", 0⟩ ⟨"x", 0⟩,
    .connect ⟨"x", 0⟩ ⟨"x", 1⟩, .connect ⟨"x", 0⟩ ⟨"y", 0⟩]

/-- Three edges are gone, and four are reported. -/
theorem cleanup_balances_withered : withered.WellFormed ∧ ∃ stats after,
    withered.edit removeDeadNodes = (.ok stats, after) ∧ stats.nodesRemoved + after.nodeCount = withered.nodeCount ∧
      stats.edgesRemoved + after.edgeCount = withered.edgeCount + 1 ∧ after.edgeCount + 3 = withered.edgeCount := by
  have wf : withered.WellFormed := wellFormed_empty.history _
  have computed : (withered.edit removeDeadNodes).1.isOk ∧
      (lostLoops withered (withered.edit removeDeadNodes).2).length = 1 ∧
      (withered.edit removeDeadNodes).2.edgeCount + 3 = withered.edgeCount := by decide +kernel
  obtain ⟨succeeds, loops, sizes⟩ := computed
  obtain ⟨stats, ran⟩ := isOk_iff.mp succeeds
  obtain ⟨nodes, edges, _⟩ := cleanup_balances wf (edit_eq_of_fst ran)
  rw [loops] at edges
  exact ⟨wf, stats, _, edit_eq_of_fst ran, nodes, edges, sizes⟩

end Graph
end OpGraph
