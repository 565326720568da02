import OpGraph.Proofs.CanonicalOrder

/-! What the search for an order reports where it stops early. Nothing on a circle is ever placed, so neither is
what follows one; and whatever is left follows one. The least of these nodes is named, which need not lie
on a circle itself. -/

namespace OpGraph.Graph
open Std (ExtTreeMap)

structure LeastStuck (graph : Graph) (id : NodeId) : Prop where
  follows : graph.FollowsCircle id
  le : ∀ other, graph.FollowsCircle other → id ≤ other

variable {graph : Graph}

theorem OnCircle.follows {id : NodeId} (circle : graph.OnCircle id) : graph.FollowsCircle id := ⟨id, circle, .refl⟩

theorem OnCircle.hasNode (wf : graph.WellFormed) {id : NodeId} (circle : graph.OnCircle id) : graph.hasNode id := by
  obtain ⟨_, _, feeds⟩ := Relation.TransGen.tail'_iff.mp circle
  exact (wf.hasNode_of_feeds feeds).2

theorem FollowsCircle.hasNode (wf : graph.WellFormed) {id : NodeId} (follows : graph.FollowsCircle id) :
    graph.hasNode id := by
  obtain ⟨first, circle, path⟩ := follows
  rcases path.cases_tail with same | ⟨_, _, feeds⟩
  · exact same ▸ circle.hasNode wf
  · exact (wf.hasNode_of_feeds feeds).2

theorem LeastStuck.unique {id other : NodeId} (stuck : graph.LeastStuck id) (otherStuck : graph.LeastStuck other) :
    id = other :=
  String.le_antisymm (stuck.le other otherStuck.follows) (otherStuck.le id stuck.follows)

/-! ## What is placed -/

/-- All that leads to a placed node has been placed before it. -/
theorem ReadyOrder.idxOf_lt_of_path {order : List NodeId} (legal : graph.ReadyOrder [] order) {first last : NodeId}
    (path : Relation.TransGen graph.Feeds first last) (placed : last ∈ order) :
    order.idxOf first < order.idxOf last := by
  induction path with
  | single feeds =>
    obtain ⟨edge, member, source, target⟩ := feeds
    subst source target
    exact legal.idxOf_lt member placed List.not_mem_nil
  | tail _ feeds ih =>
    obtain ⟨edge, member, source, target⟩ := feeds
    subst source target
    have below := legal.idxOf_lt member placed List.not_mem_nil
    have inside := List.idxOf_lt_length_iff.mp (Nat.lt_trans below (List.idxOf_lt_length_iff.mpr placed))
    exact Nat.lt_trans (ih inside) below

theorem ReadyOrder.not_mem_of_followsCircle {order : List NodeId} (legal : graph.ReadyOrder [] order) {id : NodeId}
    (follows : graph.FollowsCircle id) : id ∉ order := by
  intro placed
  obtain ⟨first, circle, path⟩ := follows
  have inside : first ∈ order := by
    rcases Relation.reflTransGen_iff_eq_or_transGen.mp path with same | path
    · exact same ▸ placed
    · have below := legal.idxOf_lt_of_path path placed
      exact List.idxOf_lt_length_iff.mp (Nat.lt_trans below (List.idxOf_lt_length_iff.mpr placed))
  exact Nat.lt_irrefl _ (legal.idxOf_lt_of_path circle inside)

/-! ## What is reported -/

/-- The counters are searched in the order of the ids. -/
theorem le_of_find?_eq_some {counters : Counters} {accepts : NodeId × Int → Bool} {id other : NodeId}
    {count number : Int}
    (found : counters.toList.find? accepts = some (id, count)) (stored : counters[other]? = some number)
    (accepted : accepts (other, number)) : id ≤ other := by
  obtain ⟨_, earlier, later, split, skipped⟩ := List.find?_eq_some_iff_append.mp found
  have listed : (other, number) ∈ counters.toList := ExtTreeMap.mem_toList_iff_getElem?_eq_some.mpr stored
  have ascending := ExtTreeMap.ordered_keys_toList (t := counters)
  rw [split] at listed ascending
  rcases List.mem_append.mp listed with skippedOver | listed
  · exact absurd (skipped _ skippedOver) (by simp [accepted])
  · rcases List.mem_cons.mp listed with same | above
    · exact Std.le_of_eq (congrArg Prod.fst same).symm
    · have below := (List.pairwise_cons.mp (List.pairwise_append.mp ascending).2.1).1 _ above
      exact Std.le_of_lt (compareOfLessAndEq_eq_lt.mp below)

section Search

variable {order : List NodeId} {last : Sorting}

/-- Of the nodes that are left each is held back, and they are those that follow a circle. -/
theorem followsCircle_iff_held (wf : graph.WellFormed)
    (searched : graph.place graph.nodeCount graph.startSorting = (order, last))
    (early : order.length ≠ graph.nodeCount) (id : NodeId) :
    graph.FollowsCircle id ↔ ∃ number, last.counters[id]? = some number ∧ 0 < number := by
  have stands := stands_place wf (Sorting.stands_start graph) graph.nodeCount
  have legal := (readyOrder_place wf (Sorting.stands_start graph) graph.nodeCount).1
  have exhausted := stack_place_eq_nil graph graph.startSorting graph.nodeCount
  simp only [searched, List.append_nil] at stands legal exhausted
  constructor
  · intro follows
    have present := follows.hasNode wf
    have waits : id ∉ order.reverse := fun placed => legal.not_mem_of_followsCircle follows (List.mem_reverse.mp placed)
    have held := List.length_pos_iff.mpr (stands.heldBy_ne_nil (exhausted early) present waits)
    exact ⟨_, (stands.counts id).trans (if_pos present), Int.natCast_pos.mpr held⟩
  · intro ⟨number, stored, positive⟩
    rw [stands.counts] at stored
    split at stored
    next present =>
      cases stored
      refine stands.followsCircle wf (exhausted early) present fun placed => ?_
      rw [stands.heldBy_eq_nil (.inl placed)] at positive
      exact Int.lt_irrefl 0 positive
    next => cases stored

/-- The first that is held back is the least of them all. -/
theorem exists_leastStuck (wf : graph.WellFormed)
    (searched : graph.place graph.nodeCount graph.startSorting = (order, last))
    (early : order.length ≠ graph.nodeCount) (circular : ¬ graph.Acyclic) :
    ∃ id count, (last.counters.toList.find? fun entry => 0 < entry.2) = some (id, count) ∧ graph.LeastStuck id := by
  have held := followsCircle_iff_held wf searched early
  obtain ⟨first, circle⟩ := not_forall_not.mp circular
  obtain ⟨number, stored, positive⟩ := (held first).mp (OnCircle.follows circle)
  cases found : last.counters.toList.find? fun entry => 0 < entry.2 with
  | none =>
    have listed : (first, number) ∈ last.counters.toList := ExtTreeMap.mem_toList_iff_getElem?_eq_some.mpr stored
    exact absurd (decide_eq_true positive) (List.find?_eq_none.mp found _ listed)
  | some entry =>
    obtain ⟨id, count⟩ := entry
    have known : last.counters[id]? = some count :=
      ExtTreeMap.mem_toList_iff_getElem?_eq_some.mp (List.mem_of_find?_eq_some found)
    have positive := List.find?_some found
    have follows := (held id).mpr ⟨count, known, of_decide_eq_true positive⟩
    refine ⟨id, count, rfl, follows, fun other otherFollows => ?_⟩
    obtain ⟨_, stored, positive⟩ := (held other).mp otherFollows
    exact le_of_find?_eq_some found stored (decide_eq_true positive)

end Search

theorem not_acyclic_of_error (wf : graph.WellFormed) {error : GraphError}
    (refused : graph.topologicalOrder = .error error) : ¬ graph.Acyclic := by
  intro acyclic
  obtain ⟨order, sorted⟩ := (exists_topologicalOrder_iff wf).mpr acyclic
  cases sorted.symm.trans refused

theorem leastStuck_of_error (wf : graph.WellFormed) {error : GraphError}
    (refused : graph.topologicalOrder = .error error) : ∃ id, error = .cycleDetected id ∧ graph.LeastStuck id := by
  have circular := not_acyclic_of_error wf refused
  cases searched : graph.place graph.nodeCount graph.startSorting with
  | mk order last =>
    simp only [topologicalOrder, searched] at refused
    split at refused
    · cases refused
    next early =>
      obtain ⟨id, count, found, least⟩ := exists_leastStuck wf searched early circular
      rw [found] at refused
      exact ⟨id, (Except.error.inj refused).symm, least⟩

/-- The search stops early exactly if there is a circle, and names the least node that follows one. -/
theorem topologicalOrder_eq_error_iff (wf : graph.WellFormed) {error : GraphError} :
    graph.topologicalOrder = .error error ↔ ∃ id, error = .cycleDetected id ∧ graph.LeastStuck id := by
  refine ⟨leastStuck_of_error wf, ?_⟩
  intro ⟨id, same, stuck⟩
  cases outcome : graph.topologicalOrder with
  | ok order =>
    obtain ⟨first, circle, _⟩ := stuck.follows
    exact absurd circle ((exists_topologicalOrder_iff wf).mp ⟨order, outcome⟩ first)
  | error other =>
    obtain ⟨named, sameName, least⟩ := leastStuck_of_error wf outcome
    rw [same, sameName, stuck.unique least]

/-- What is reported is a node that follows a circle, the least of these. It lies on a circle itself exactly if
one that does is below all the others. -/
theorem circle_report_is_least_stuck (wf : graph.WellFormed) :
    (∀ error, graph.topologicalOrder = .error error ↔ ∃ id, error = .cycleDetected id ∧ graph.LeastStuck id) ∧
    ∀ id, graph.topologicalOrder = .error (.cycleDetected id) → graph.hasNode id ∧
      (graph.OnCircle id ↔ ∃ first, graph.OnCircle first ∧ ∀ other, graph.FollowsCircle other → first ≤ other) := by
  refine ⟨fun _ => topologicalOrder_eq_error_iff wf, fun id reported => ?_⟩
  obtain ⟨_, same, stuck⟩ := (topologicalOrder_eq_error_iff wf).mp reported
  cases same
  refine ⟨stuck.follows.hasNode wf, fun circle => ⟨id, circle, stuck.le⟩, ?_⟩
  intro ⟨first, circle, le⟩
  exact stuck.unique ⟨circle.follows, le⟩ ▸ circle

/-- A node that feeds itself, and a result behind it whose id is less. -/
def trailed : Graph := Graph.empty.history
  [.addNode { id := "b", kind := .squeeze }, .addNode (.result "a"), .connect ⟨"b", 0⟩ ⟨"b", 0⟩,
    .connect ⟨"b", 0⟩ ⟨"a", 0⟩]

/-- The result is reported, and it lies on no circle. -/
theorem circle_report_is_least_stuck_trailed : trailed.WellFormed ∧
    trailed.topologicalOrder = .error (.cycleDetected "a") ∧ trailed.hasNode "a" ∧ trailed.LeastStuck "a" ∧
    ¬ trailed.OnCircle "a" ∧ trailed.OnCircle "b" := by
  have wf : trailed.WellFormed := wellFormed_empty.history _
  have reported : trailed.topologicalOrder = .error (.cycleDetected "a") := by decide +kernel
  have fed : trailed.producer? ⟨"b", 0⟩ = some ⟨"b", 0⟩ := by decide +kernel
  have last : ∀ edge ∈ trailed.edgeList, edge.source.node ≠ "a" := by decide +kernel
  obtain ⟨errors, names⟩ := circle_report_is_least_stuck wf
  obtain ⟨_, same, stuck⟩ := (errors _).mp reported
  cases same
  refine ⟨wf, reported, (names "a" reported).1, stuck, ?_, .single (wf.feeds_of_producer? fed)⟩
  intro circle
  obtain ⟨_, ⟨edge, member, source, _⟩, _⟩ := Relation.TransGen.head'_iff.mp circle
  exact last edge member source

end OpGraph.Graph
