import OpGraph.Proofs.Cleanup
import OpGraph.Proofs.RankPass
import Mathlib.Algebra.BigOperators.Group.List.Defs
import Mathlib.Algebra.Ring.Int.Defs

/-! Decompositions and removals close no circle, and they count. A graph that is spread out to every fourth
height has room for the three inserted nodes that depend on a rank, between the rank and whatever it
feeds; of the sizes, the keys of the node table tell them. -/

namespace OpGraph

/-! ## Counting -/

namespace PassStats

def nodeGain (stats : PassStats) : Int := stats.nodesAdded - stats.nodesRemoved

def edgeGain (stats : PassStats) : Int := stats.edgesAdded - stats.edgesRemoved

theorem edgeGain_add (first second : PassStats) : (first + second).edgeGain = first.edgeGain + second.edgeGain := by
  have added : (first + second).edgesAdded = first.edgesAdded + second.edgesAdded := rfl
  have removed : (first + second).edgesRemoved = first.edgesRemoved + second.edgesRemoved := rfl
  rw [edgeGain, edgeGain, edgeGain, added, removed]
  omega

section Measure

variable {Amount : Type} [AddMonoid Amount] {measure : PassStats → Amount}

theorem measure_foldl (additive : ∀ first second, measure (first + second) = measure first + measure second)
    (stats : List PassStats) (start : PassStats) :
    measure (stats.foldl (· + ·) start) = measure start + (stats.map measure).sum := by
  induction stats generalizing start with
  | nil => simp
  | cons first stats ih => rw [List.foldl_cons, ih, additive, List.map_cons, List.sum_cons, add_assoc]

theorem measure_total (additive : ∀ first second, measure (first + second) = measure first + measure second)
    (nothing : measure {} = 0) (stats : List PassStats) : measure (total stats) = (stats.map measure).sum := by
  rw [total, measure_foldl additive, nothing, zero_add]

theorem sum_of_forall {count : Amount} {stats : List PassStats} (each : ∀ one ∈ stats, measure one = count) :
    (stats.map measure).sum = stats.length • count := by
  have same : ∀ amount ∈ stats.map measure, amount = count := List.forall_mem_map.mpr each
  rw [List.sum_eq_card_nsmul _ _ same, List.length_map]

end Measure

theorem total_matched {count : Nat} {stats : List PassStats} (each : ∀ one ∈ stats, one.matched = count) :
    (total stats).matched = stats.length * count :=
  (measure_total (fun _ _ => rfl) rfl stats).trans (sum_of_forall each)

theorem total_nodesAdded {count : Nat} {stats : List PassStats} (each : ∀ one ∈ stats, one.nodesAdded = count) :
    (total stats).nodesAdded = stats.length * count :=
  (measure_total (fun _ _ => rfl) rfl stats).trans (sum_of_forall each)

theorem total_nodesRemoved {count : Nat} {stats : List PassStats} (each : ∀ one ∈ stats, one.nodesRemoved = count) :
    (total stats).nodesRemoved = stats.length * count :=
  (measure_total (fun _ _ => rfl) rfl stats).trans (sum_of_forall each)

theorem edgesRemoved_total_cons (first : PassStats) (stats : List PassStats) :
    (total (first :: stats)).edgesRemoved = first.edgesRemoved + (total stats).edgesRemoved := by
  have sums (stats : List PassStats) : (total stats).edgesRemoved = (stats.map edgesRemoved).sum :=
    measure_total (fun _ _ => rfl) rfl stats
  rw [sums, sums, List.map_cons, List.sum_cons]

theorem total_edgeGain {count : Int} {stats : List PassStats} (each : ∀ one ∈ stats, one.edgeGain = count) :
    (total stats).edgeGain = stats.length * count := by
  rw [measure_total edgeGain_add rfl, sum_of_forall each, nsmul_eq_mul]

end PassStats

namespace Graph

theorem nodeCount_eq_of_hasNode_iff {graph : Graph} {ids : List NodeId} (distinct : ids.Nodup)
    (same : ∀ id, graph.hasNode id ↔ id ∈ ids) : graph.nodeCount = ids.length := by
  have perm : graph.nodes.keys.Perm ids :=
    (List.perm_ext_iff_of_nodup Std.ExtTreeMap.nodup_keys distinct).mpr fun id =>
      Std.ExtTreeMap.mem_keys.trans (same id)
  rw [nodeCount, ← Std.ExtTreeMap.length_keys, perm.length_eq]

theorem mem_keys_nodes {graph : Graph} {id : NodeId} : id ∈ graph.nodes.keys ↔ graph.hasNode id :=
  Std.ExtTreeMap.mem_keys

/-! ## Removing nodes -/

theorem Pruned.nodeCount {before after : Graph} {gone : List NodeId} (pruned : Pruned before after gone)
    (distinct : gone.Nodup) (present : ∀ id ∈ gone, before.hasNode id) :
    after.nodeCount + gone.length = before.nodeCount := by
  have apart : (after.nodes.keys ++ gone).Nodup := by
    refine Std.ExtTreeMap.nodup_keys.append distinct ?_
    intro id member
    exact (pruned.hasNode_iff.mp (mem_keys_nodes.mp member)).2
  have members : ∀ id, before.hasNode id ↔ id ∈ after.nodes.keys ++ gone := by
    intro id
    rw [List.mem_append, mem_keys_nodes, pruned.hasNode_iff]
    by_cases removed : id ∈ gone
    · simp [removed, present id removed]
    · simp [removed]
  rw [nodeCount_eq_of_hasNode_iff apart members, List.length_append, Std.ExtTreeMap.length_keys, Graph.nodeCount]

theorem Pruned.feeds_iff {before after : Graph} {gone : List NodeId} (pruned : Pruned before after gone)
    (wf : before.WellFormed) {producer consumer : NodeId} :
    after.Feeds producer consumer ↔ before.Feeds producer consumer ∧ producer ∉ gone ∧ consumer ∉ gone := by
  constructor
  · intro feeds
    obtain ⟨index, source, fed, same⟩ := pruned.wellFormed.exists_producer?_of_feeds feeds
    subst same
    obtain ⟨left, right⟩ := pruned.wellFormed.hasNode_of_feeds feeds
    have stays := (pruned.hasNode_iff.mp right).2
    rw [pruned.producer?, if_neg stays, Option.filter_eq_some_iff] at fed
    exact ⟨wf.feeds_of_producer? fed.1, (pruned.hasNode_iff.mp left).2, stays⟩
  · intro ⟨feeds, left, right⟩
    obtain ⟨index, source, fed, same⟩ := wf.exists_producer?_of_feeds feeds
    subst same
    have still : after.producer? ⟨consumer, index⟩ = some source := by
      rw [pruned.producer?, if_neg right, fed]
      simp [Option.filter, left]
    exact pruned.wellFormed.feeds_of_producer? still

theorem Pruned.acyclic {before after : Graph} {gone : List NodeId} (pruned : Pruned before after gone)
    (wf : before.WellFormed) (acyclic : before.Acyclic) : after.Acyclic := by
  obtain ⟨height, ascends⟩ := (acyclic_iff_ascends wf).mp acyclic
  have lower : after.Ascends height := fun producer consumer feeds =>
    ascends producer consumer ((pruned.feeds_iff wf).mp feeds).1
  exact lower.acyclic

/-- Where the removed nodes fed none that stay, the paths to those are all there still. -/
theorem Pruned.reaches {before after : Graph} {gone : List NodeId} (pruned : Pruned before after gone)
    (wf : before.WellFormed)
    (closed : ∀ {producer consumer}, before.Feeds producer consumer → consumer ∉ gone → producer ∉ gone)
    {id target : NodeId} (reaches : before.Reaches id target) (stays : target ∉ gone) :
    id ∉ gone ∧ after.Reaches id target := by
  induction reaches using Relation.ReflTransGen.head_induction_on with
  | refl => exact ⟨stays, .refl⟩
  | head feeds _ ih =>
    obtain ⟨live, path⟩ := ih
    have before := closed feeds live
    exact ⟨before, .head ((pruned.feeds_iff wf).mpr ⟨feeds, before, live⟩) path⟩

theorem removeDeadNodes_nodesRemoved {graph after : Graph} {stats : PassStats}
    (ran : graph.edit removeDeadNodes = (.ok stats, after)) : stats.nodesRemoved = graph.deadNodes.length := by
  obtain ⟨_, _, started, ran⟩ := edit_bind_eq_ok.mp ran
  cases started
  obtain ⟨each, middle, ran, done⟩ := edit_bind_eq_ok.mp ran
  cases done
  have one (id : NodeId) (stats : PassStats) (graph after : Graph)
      (ran : graph.edit (removeDead id) = (.ok stats, after)) : stats.nodesRemoved = 1 := by
    obtain ⟨_, _, _, ran⟩ := edit_bind_eq_ok.mp ran
    obtain ⟨_, _, _, done⟩ := edit_bind_eq_ok.mp ran
    cases done
    rfl
  obtain ⟨length, each⟩ := edit_mapM_values one ran
  rw [PassStats.total_nodesRemoved each, length, Nat.mul_one]

end Graph

/-! ## Decomposing a rank -/

namespace RankDecomposition
open OpGraph.Graph

/-- Heights of the graph with the chain, from heights of the graph with the rank. -/
def Chain.height (chain : Chain) (height : NodeId → Nat) (rank : NodeId) (id : NodeId) : Nat :=
  if id = chain.shape then 4 * height rank
  else if id = chain.length then 4 * height rank + 1
  else if id = chain.squeeze then 4 * height rank + 2
  else if id = chain.axis then 0
  else 4 * height id

namespace Decomposed

variable {before after : Graph} {rank : NodeId} {name : String} {outputType : ElementType} {chain : Chain}
  {height : NodeId → Nat}

theorem height_kept (decomposed : Decomposed before after rank name outputType chain) {id : NodeId}
    (present : before.hasNode id) : chain.height height rank id = 4 * height id := by
  obtain ⟨axis, squeeze, length, shape⟩ := Chain.forall_mem_ids.mp decomposed.fresh
  have other {new : NodeId} (fresh : ¬ before.hasNode new) : id ≠ new := fun same => fresh (same ▸ present)
  rw [Chain.height, if_neg (other shape), if_neg (other length), if_neg (other squeeze), if_neg (other axis)]

theorem height_squeeze (decomposed : Decomposed before after rank name outputType chain) :
    chain.height height rank chain.squeeze = 4 * height rank + 2 := by
  obtain ⟨_, ⟨squeezeLength, squeezeShape⟩, _⟩ := Chain.nodup_ids.mp decomposed.distinct
  rw [Chain.height, if_neg squeezeShape, if_neg squeezeLength, if_pos rfl]

theorem height_length (decomposed : Decomposed before after rank name outputType chain) :
    chain.height height rank chain.length = 4 * height rank + 1 := by
  obtain ⟨_, _, lengthShape⟩ := Chain.nodup_ids.mp decomposed.distinct
  rw [Chain.height, if_neg lengthShape, if_pos rfl]

theorem height_shape : chain.height height rank chain.shape = 4 * height rank := if_pos rfl

theorem height_axis (decomposed : Decomposed before after rank name outputType chain) :
    chain.height height rank chain.axis = 0 := by
  obtain ⟨⟨axisSqueeze, axisLength, axisShape⟩, _⟩ := Chain.nodup_ids.mp decomposed.distinct
  rw [Chain.height, if_neg axisShape, if_neg axisLength, if_neg axisSqueeze, if_pos rfl]

/-- A relocated producer stays below whatever was above the old one. -/
theorem height_relocate (decomposed : Decomposed before after rank name outputType chain) (wf : before.WellFormed)
    {port source moved : Port} (fed : before.producer? port = some source)
    (relocated : relocate rank chain.squeeze source = some moved) {consumer : Nat}
    (above : height source.node < consumer) : chain.height height rank moved.node < 4 * consumer := by
  unfold relocate at relocated
  split at relocated
  next own =>
    split at relocated <;> cases relocated
    rw [decomposed.height_squeeze, ← own]
    omega
  next other =>
    cases relocated
    rw [decomposed.height_kept (wf.hasNode_of_producer? fed).1]
    omega

theorem ascends (decomposed : Decomposed before after rank name outputType chain) (wf : before.WellFormed)
    (lower : before.Ascends height) : after.Ascends (chain.height height rank) := by
  intro producer consumer feeds
  obtain ⟨index, moved, fed, same⟩ := decomposed.wellFormed.exists_producer?_of_feeds feeds
  subst same
  have below {port source : Port} (known : before.producer? port = some source)
      (relocated : relocate rank chain.squeeze source = some moved) :
      chain.height height rank moved.node < 4 * height port.node :=
    decomposed.height_relocate wf known relocated (lower _ _ (wf.feeds_of_producer? known))
  rcases decomposed.producer?_cases fed with
    ⟨present, _, source, known, relocated⟩ | ⟨same, source, known, relocated⟩ | ⟨same, rfl⟩ | ⟨same, rfl⟩ | ⟨same, rfl⟩
  · rw [decomposed.height_kept present]
    exact below known relocated
  · cases same
    rw [height_shape]
    exact below known relocated
  · cases same
    rw [height_shape, decomposed.height_length]
    omega
  · cases same
    rw [decomposed.height_length, decomposed.height_squeeze]
    omega
  · cases same
    rw [decomposed.height_axis, decomposed.height_squeeze]
    omega

theorem acyclic (decomposed : Decomposed before after rank name outputType chain) (wf : before.WellFormed)
    (acyclic : before.Acyclic) : after.Acyclic := by
  obtain ⟨height, lower⟩ := (acyclic_iff_ascends wf).mp acyclic
  exact (decomposed.ascends wf lower).acyclic

theorem nodeCount (decomposed : Decomposed before after rank name outputType chain) (present : before.hasNode rank) :
    after.nodeCount = before.nodeCount + 3 := by
  have others : ∀ id, id ∈ before.nodes.keys.erase rank ↔ before.hasNode id ∧ id ≠ rank := by
    intro id
    rw [Std.ExtTreeMap.nodup_keys.mem_erase_iff, mem_keys_nodes, and_comm]
  have apart : (before.nodes.keys.erase rank ++ chain.ids).Nodup := by
    refine (Std.ExtTreeMap.nodup_keys.erase rank).append decomposed.distinct ?_
    intro id member inserted
    exact decomposed.fresh id inserted ((others id).mp member).1
  have members : ∀ id, after.hasNode id ↔ id ∈ before.nodes.keys.erase rank ++ chain.ids := by
    intro id
    rw [List.mem_append, others, decomposed.hasNode_iff]
  have old := List.length_erase_add_one (mem_keys_nodes.mpr present)
  rw [Std.ExtTreeMap.length_keys] at old
  rw [nodeCount_eq_of_hasNode_iff apart members, List.length_append, show chain.ids.length = 4 from rfl,
    Graph.nodeCount, ← old]

end Decomposed

/-! ## Decomposing all ranks -/

/-- What is left of a graph in which some ranks were decomposed. -/
structure Rewritten (before after : Graph) (ranks : List NodeId) : Prop where
  wellFormed : after.WellFormed
  acyclic : before.Acyclic → after.Acyclic
  nodeCount : after.nodeCount = before.nodeCount + 3 * ranks.length
  kept : ∀ {id}, before.hasNode id → id ∉ ranks → after.node? id = before.node? id
  rank : ∀ {id node}, after.node? id = some node → node.kind = .rank → before.node? id = some node ∧ id ∉ ranks

theorem Rewritten.refl {graph : Graph} (wf : graph.WellFormed) : Rewritten graph graph [] :=
  ⟨wf, fun acyclic => acyclic, rfl, fun _ _ => rfl, fun found _ => ⟨found, List.not_mem_nil⟩⟩

theorem Rewritten.cons {before middle after : Graph} {rank : Node} {ranks : List NodeId} {name : String}
    {outputType : ElementType} {chain : Chain} (rest : Rewritten middle after ranks) (wf : before.WellFormed)
    (present : before.hasNode rank.id) (decomposed : Decomposed before middle rank.id name outputType chain) :
    Rewritten before after (rank.id :: ranks) := by
  constructor
  · exact rest.wellFormed
  · intro acyclic
    exact rest.acyclic (decomposed.acyclic wf acyclic)
  · rw [rest.nodeCount, decomposed.nodeCount present, List.length_cons]
    omega
  · intro id inside unranked
    rw [List.mem_cons, not_or] at unranked
    have stays := (decomposed.hasNode_iff id).mpr (.inl ⟨inside, unranked.1⟩)
    exact (rest.kept stays unranked.2).trans (decomposed.node?_kept inside unranked.1)
  · intro id node found kind
    obtain ⟨found, unranked⟩ := rest.rank found kind
    obtain ⟨found, other⟩ := decomposed.node?_of_rank found kind
    exact ⟨found, by simp [other, unranked]⟩

theorem outputType_ne_graph {graph : Graph} {node : Node} {error : GraphError} :
    outputType graph node ≠ .error (.graph error) := by
  unfold outputType
  repeat' split
  all_goals nofun

variable [EdgeIdSupply]

theorem decomposeEach_rewrites {graph : Graph} (wf : graph.WellFormed) {nodes : List Node}
    (stored : ∀ node ∈ nodes, graph.node? node.id = some node) (distinct : (nodes.map Node.id).Nodup)
    {replaced : List (NodeId × NodeId)} {after : Graph}
    (ran : graph.edit (decomposeEach nodes) = (.ok replaced, after)) : Rewritten graph after (nodes.map Node.id) := by
  induction nodes generalizing graph replaced with
  | nil =>
    cases ran
    exact .refl wf
  | cons rank nodes ih =>
    have found := stored rank (by simp)
    rw [decomposeEach, List.mapM_cons, edit_bind_eq_ok] at ran
    obtain ⟨pair, middle, first, ran⟩ := ran
    obtain ⟨rest, last, others, done⟩ := edit_bind_eq_ok.mp ran
    cases done
    obtain ⟨outputType, _, chain, _, decomposed⟩ := edit_decomposeNode_eq_ok wf found first
    have remaining := decomposed.stored_rest stored distinct
    have rewritten := ih decomposed.wellFormed (fun node member => (remaining node member).2.2)
      (List.nodup_cons.mp distinct).2 others
    exact rewritten.cons wf (hasNode_of_node? found) decomposed

/-- What the pass reports is the sum of what is reported of each rank. -/
theorem pass_total {graph after : Graph} {stats : PassStats} (ran : graph.edit pass.run = (.ok stats, after)) :
    ∃ each : List PassStats, stats = .total each ∧ each.length = (graph.nodesOfKind .rank).length ∧
      ∀ one ∈ each, ∃ middle id, one = statsOf middle id := by
  obtain ⟨_, _, started, ran⟩ := edit_bind_eq_ok.mp (show graph.edit replacement.replaceAll = _ from ran)
  cases started
  obtain ⟨_, middle, checked, ran⟩ := edit_bind_eq_ok.mp ran
  have unchanged : middle = graph := by
    rw [edit_forM_liftM] at checked
    exact (congrArg Prod.snd checked).symm
  subst unchanged
  obtain ⟨each, last, ran, done⟩ := edit_bind_eq_ok.mp ran
  cases done
  have one (node : Node) (stats : PassStats) (graph after : Graph)
      (ran : graph.edit (replace node.id) = (.ok stats, after)) : ∃ middle id, stats = statsOf middle id := by
    obtain ⟨_, _, _, ran⟩ := edit_bind_eq_ok.mp ran
    obtain ⟨_, _, _, done⟩ := edit_bind_eq_ok.mp ran
    cases done
    exact ⟨_, _, rfl⟩
  obtain ⟨length, each⟩ := edit_mapM_values one ran
  exact ⟨_, rfl, length, each⟩

/-- The pass reports four nodes added and one removed for each rank. -/
theorem pass_stats {graph after : Graph} {stats : PassStats} (ran : graph.edit pass.run = (.ok stats, after)) :
    stats.matched = (graph.nodesOfKind .rank).length ∧ stats.nodesAdded = (graph.nodesOfKind .rank).length * 4 ∧
      stats.nodesRemoved = (graph.nodesOfKind .rank).length := by
  obtain ⟨each, rfl, length, known⟩ := pass_total ran
  have one : ∀ one ∈ each, one.matched = 1 ∧ one.nodesAdded = 4 ∧ one.nodesRemoved = 1 := by
    intro one member
    obtain ⟨_, _, rfl⟩ := known one member
    exact ⟨rfl, rfl, rfl⟩
  rw [PassStats.total_matched fun stats member => (one stats member).1,
    PassStats.total_nodesAdded fun stats member => (one stats member).2.1,
    PassStats.total_nodesRemoved fun stats member => (one stats member).2.2, length, Nat.mul_one]
  exact ⟨rfl, rfl, rfl⟩

/-- For each rank the pass reports three edges more, whatever the number of its consumers. -/
theorem pass_edgeGain {graph after : Graph} {stats : PassStats} (ran : graph.edit pass.run = (.ok stats, after)) :
    stats.edgeGain = (graph.nodesOfKind .rank).length * 3 := by
  obtain ⟨each, rfl, length, known⟩ := pass_total ran
  have one : ∀ one ∈ each, one.edgeGain = 3 := by
    intro one member
    obtain ⟨middle, id, rfl⟩ := known one member
    simp only [PassStats.edgeGain, statsOf]
    omega
  rw [PassStats.total_edgeGain one, length]

/-! ## Refusals -/

/-- No rank is refused because of a circle. -/
theorem replace_ne_cycle {graph : Graph} (wf : graph.WellFormed) (id other : NodeId) :
    (graph.edit (replace id)).1 ≠ .error (.graph (.cycleDetected other)) := by
  have refused {error : PassError} (failed : graph.edit (decompose id) = (.error error, graph)) :
      (graph.edit (replace id)).1 = .error error := by
    have discarded : graph.edit (discard (decompose id)) = (.error error, graph) := by
      rw [edit_discard, failed]
      rfl
    rw [replace, edit_bind_ok (edit_get graph), edit_bind_error discarded]
  cases found : graph.node? id with
  | none =>
    have missing : graph.edit (requiredNode id) = (.error (.graph (.nodeNotFound id)), graph) := by
      rw [requiredNode, edit_bind_ok (edit_get graph), found]
      rfl
    rw [refused (edit_bind_error missing _)]
    intro circle
    cases circle
  | some node =>
    have own := wf.node_id found
    subst own
    cases passes : outputType graph node with
    | error error =>
      rw [refused (edit_decompose_error found passes)]
      intro circle
      cases circle
      exact outputType_ne_graph passes
    | ok expected =>
      obtain ⟨chain, after, ran, _⟩ := edit_decompose_ok wf found passes
      rw [replace, edit_bind_ok (edit_get graph), edit_bind_ok (edit_discard_ok ran), edit_pure]
      intro circle
      cases circle

theorem pass_ne_cycle {graph : Graph} (wf : graph.WellFormed) (id : NodeId) :
    (graph.edit pass.run).1 ≠ .error (.graph (.cycleDetected id)) := by
  intro circle
  cases checks : (graph.nodesOfKind .rank).forM fun node => replacement.check graph node with
  | error error =>
    have refused : graph.edit pass.run = (.error error, graph) := replacement.edit_replaceAll_error checks
    rw [refused] at circle
    cases circle
    obtain ⟨node, _, failed⟩ := exists_of_forM_eq_error checks
    cases passes : outputType graph node with
    | error error =>
      simp only [replacement, passes] at failed
      cases failed
      exact outputType_ne_graph passes
    | ok expected =>
      simp only [replacement, passes] at failed
      cases failed
  | ok value =>
    have ran : graph.edit pass.run = _ := replacement.edit_replaceAll_ok (forM_eq_ok.mp checks)
    rw [ran] at circle
    obtain ⟨node, _, middle, middleWf, failed⟩ :=
      exists_of_edit_mapM_eq_error (fun node _ => keeps_replace node.id) wf (map_eq_error.mp circle)
    exact replace_ne_cycle middleWf node.id id failed

end RankDecomposition
end OpGraph
