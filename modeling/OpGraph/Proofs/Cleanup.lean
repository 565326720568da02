import OpGraph.Pass.Cleanup
import OpGraph.Proofs.BackwardSearch
import OpGraph.Proofs.Edits
import OpGraph.Proofs.Evaluation

/-! Removing dead nodes. What feeds a live node is live, so the nodes that stay keep their producers, and
what they evaluate to. -/

namespace OpGraph

def Known.without (known : Known) (gone : List NodeId) : Known := known.filter fun port _ => !gone.contains port.node

theorem Known.getElem?_without (known : Known) {gone : List NodeId} {port : Port} (stays : port.node ∉ gone) :
    (known.without gone)[port]? = known[port]? := by
  rw [Known.without, Std.ExtTreeMap.getElem?_filter']
  cases known[port]? <;> simp [Option.filter, stays]

namespace Graph

structure Pruned (before after : Graph) (gone : List NodeId) : Prop where
  wellFormed : after.WellFormed
  node? : ∀ id, after.node? id = if id ∈ gone then none else before.node? id
  edge? : ∀ id, after.edge? id = (before.edge? id).filter fun edge =>
    !gone.contains edge.source.node && !gone.contains edge.target.node
  producer? : ∀ port, after.producer? port =
    if port.node ∈ gone then none else (before.producer? port).filter fun source => !gone.contains source.node

theorem Pruned.hasNode_iff {before after : Graph} {gone : List NodeId}
    (pruned : Pruned before after gone) {id : NodeId} : after.hasNode id ↔ before.hasNode id ∧ id ∉ gone := by
  rw [hasNode_eq_isSome, hasNode_eq_isSome, pruned.node?]
  by_cases inside : id ∈ gone <;> simp [inside]

theorem Pruned.refl {graph : Graph} (wf : graph.WellFormed) : Pruned graph graph [] := by
  refine ⟨wf, by simp, fun id => ?_, fun port => ?_⟩
  · cases graph.edge? id <;> simp [Option.filter]
  · cases graph.producer? port <;> simp [Option.filter]

theorem Pruned.cons {before middle after : Graph} {id : NodeId} {gone : List NodeId} (wf : before.WellFormed)
    (first : middle = before.withoutNode id) (rest : Pruned middle after gone) : Pruned before after (id :: gone) := by
  subst first
  refine ⟨rest.wellFormed, fun other => ?_, fun edgeId => ?_, fun port => ?_⟩
  · rw [rest.node?, wf.node?_withoutNode]
    by_cases same : other = id
    · simp [same]
    · simp [same, Ne.symm same]
  · rw [rest.edge?, wf.edge?_withoutNode, Option.filter_filter]
    congr 1
    funext edge
    by_cases source : edge.source.node = id <;> by_cases target : edge.target.node = id <;> simp [source, target]
  · rw [rest.producer?, wf.producer?_withoutNode]
    by_cases here : port.node = id
    · simp [here]
    · by_cases inside : port.node ∈ gone
      · simp [inside]
      · simp only [here, inside, if_false, List.mem_cons, or_self, Option.filter_filter]
        congr 1
        funext source
        by_cases same : source.node = id <;> simp [same]

/-- How the removal of a node is reported: an edge counts once for each end that it has there. -/
def removal (graph : Graph) (id : NodeId) : PassStats :=
  { nodesRemoved := 1, edgesRemoved := (graph.incomingEdges id).length + (graph.outgoingEdges id).length }

theorem edit_removeDead {graph : Graph} (wf : graph.WellFormed) {id : NodeId} (present : graph.hasNode id) :
    graph.edit (removeDead id) = (.ok (graph.removal id), graph.withoutNode id) := by
  obtain ⟨node, found⟩ := exists_node?_of_hasNode present
  have removed : graph.edit (removeNode id) = (.ok node, graph.withoutNode id) := by
    rw [edit_removeNode, found]
  rw [removeDead, edit_bind_ok (edit_get graph), edit_bind_ok (edit_discard_ok removed), edit_pure, wf.length_incoming,
    wf.length_outgoing]
  rfl

def removals (graph : Graph) : List NodeId → List PassStats
  | [] => []
  | id :: ids => graph.removal id :: (graph.withoutNode id).removals ids

theorem edit_removeEach {graph : Graph} (wf : graph.WellFormed) {ids : List NodeId} (distinct : ids.Nodup)
    (present : ∀ id ∈ ids, graph.hasNode id) :
    graph.edit (ids.mapM removeDead) = (.ok (graph.removals ids), ids.foldl withoutNode graph) := by
  induction ids generalizing graph with
  | nil => rfl
  | cons id ids ih =>
    obtain ⟨absent, distinct⟩ := List.nodup_cons.mp distinct
    have remaining : ∀ other ∈ ids, (graph.withoutNode id).hasNode other := by
      intro other member
      have different : id ≠ other := fun same => absent (same ▸ member)
      rw [wf.hasNode_withoutNode, present other (by simp [member])]
      simpa using different
    rw [edit_mapM_cons_ok (edit_removeDead wf (present id (by simp))), ih (wf.withoutNode id) distinct remaining]
    rfl

theorem WellFormed.pruned_foldl {graph : Graph} (wf : graph.WellFormed) (ids : List NodeId) :
    Pruned graph (ids.foldl Graph.withoutNode graph) ids := by
  induction ids generalizing graph with
  | nil => exact .refl wf
  | cons id ids ih => exact .cons wf rfl (ih (wf.withoutNode id))

/-- Where the nodes that are gone feed none that stays, the values of those that stay solve the rules still. -/
theorem Pruned.solves {before after : Graph} {gone : List NodeId} (pruned : Pruned before after gone)
    (wf : before.WellFormed) {known : Known} (solves : before.Solves known)
    (closed : ∀ {producer consumer}, before.Feeds producer consumer → consumer ∉ gone → producer ∉ gone) :
    after.Solves (known.without gone) := by
  constructor
  · intro port inferred stored
    rw [Known.without, Std.ExtTreeMap.getElem?_filter', Option.filter_eq_some_iff] at stored
    obtain ⟨stored, inside⟩ := stored
    obtain ⟨present, index⟩ := solves.support stored
    exact ⟨pruned.hasNode_iff.mpr ⟨present, by simpa using inside⟩, index⟩
  · intro id node present found
    obtain ⟨present, inside⟩ := pruned.hasNode_iff.mp present
    rw [pruned.node?, if_neg inside] at found
    obtain ⟨inferred, stored, holds⟩ := solves.rule present found
    have own := wf.node_id found
    subst own
    have transfers : Inference.Transfers before after known (known.without gone) node := by
      refine ⟨fun {port source data} fed value => ?_, fun unconnected => ?_⟩
      · have stays := closed (wf.feeds_of_producer? fed) inside
        refine ⟨source, ?_, (Known.getElem?_without known stays).trans value⟩
        rw [pruned.producer?, if_neg inside, fed]
        simp [Option.filter, stays]
      · rw [pruned.producer?, if_neg inside, unconnected]
        rfl
    exact ⟨inferred, (Known.getElem?_without known inside).trans stored, transfers.inferNode holds⟩

/-! ## Dead nodes -/

theorem mem_deadNodes {graph : Graph} (wf : graph.WellFormed) {id : NodeId} :
    id ∈ graph.deadNodes ↔ graph.hasNode id ∧ graph.nodesOfKind .result ≠ [] ∧
      ∀ result ∈ graph.nodesOfKind .result, ¬ graph.Reaches id result.id := by
  cases results : graph.nodesOfKind .result with
  | nil => simp [deadNodes, results]
  | cons first rest =>
    have dead : graph.deadNodes = graph.nodes.keys.filter fun id =>
        !(graph.reachableTo ((graph.nodesOfKind .result).map Node.id)).contains id := by
      simp [deadNodes, results, wf.map_id_nodeList]
    have present : ∀ result ∈ graph.nodesOfKind .result, graph.hasNode result.id := fun result member =>
      hasNode_of_node? (wf.mem_nodesOfKind.mp member).1
    have unreached : !(graph.reachableTo ((graph.nodesOfKind .result).map Node.id)).contains id ↔
        ∀ result ∈ graph.nodesOfKind .result, ¬ graph.Reaches id result.id := by
      rw [Bool.not_eq_true', ← Bool.not_eq_true, Std.ExtTreeSet.contains_iff_mem, mem_reachableTo wf]
      constructor
      · intro unreached result member path
        exact unreached ⟨result.id, List.mem_map_of_mem member, present result member, path⟩
      · intro unreachable ⟨target, member, _, path⟩
        obtain ⟨result, inside, same⟩ := List.mem_map.mp member
        subst same
        exact unreachable result inside path
    rw [dead, List.mem_filter, unreached, Std.ExtTreeMap.mem_keys, results]
    exact and_congr_right fun _ => (and_iff_right (List.cons_ne_nil first rest)).symm

theorem nodup_deadNodes {graph : Graph} (wf : graph.WellFormed) : graph.deadNodes.Nodup := by
  unfold deadNodes
  simp only
  split
  · exact List.nodup_nil
  · rw [wf.map_id_nodeList]
    exact Std.ExtTreeMap.nodup_keys.filter _

theorem not_mem_deadNodes_of_feeds {graph : Graph} (wf : graph.WellFormed) {producer consumer : NodeId}
    (feeds : graph.Feeds producer consumer) (live : consumer ∉ graph.deadNodes) : producer ∉ graph.deadNodes := by
  intro dead
  obtain ⟨_, some, unreachable⟩ := (mem_deadNodes wf).mp dead
  refine live ((mem_deadNodes wf).mpr ⟨(wf.hasNode_of_feeds feeds).2, some, ?_⟩)
  intro result member path
  exact unreachable result member (.head feeds path)

def withoutDead (graph : Graph) : Graph := graph.deadNodes.foldl withoutNode graph

theorem edit_removeDeadNodes {graph : Graph} (wf : graph.WellFormed) :
    graph.edit removeDeadNodes = (.ok (PassStats.total (graph.removals graph.deadNodes)), graph.withoutDead) := by
  have ran := edit_removeEach wf (nodup_deadNodes wf) fun id dead => ((mem_deadNodes wf).mp dead).1
  rw [removeDeadNodes, edit_bind_ok (edit_get graph), edit_bind_ok ran, edit_pure]
  rfl

theorem WellFormed.pruned_withoutDead {graph : Graph} (wf : graph.WellFormed) :
    Pruned graph graph.withoutDead graph.deadNodes :=
  wf.pruned_foldl _

end Graph
end OpGraph
