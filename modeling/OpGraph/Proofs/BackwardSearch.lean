import OpGraph.Graph.Reachable
import OpGraph.Proofs.Histories
import OpGraph.Proofs.Reachability

/-! The search backwards visits exactly the nodes with a path to a target. It needs no bound to come to an end: each
visit uses up a place in the queue or, where a node is seen for the first time, the edges that reach it, and these let
no more nodes wait than there are of them. -/

namespace OpGraph.Graph

/-! ## The search without a bound -/

def unseenProducers (graph : Graph) (id : NodeId) (seen : Std.ExtTreeSet NodeId) : List NodeId :=
  ((graph.incomingEdges id).map fun edge => edge.source.node).filter fun producer => !seen.contains producer

/-- The search from the nodes that wait ends after so many visits with what it has found then. A node that has been
seen is passed over, and one that is seen for the first time lets its unseen producers wait behind the others. -/
inductive SearchEnds (graph : Graph) :
    (visits : Nat) → (waiting : List NodeId) → (seen found : Std.ExtTreeSet NodeId) → Prop
  | done {seen} : SearchEnds graph 0 [] seen seen
  | again {visits id waiting seen found} (known : id ∈ seen) (rest : SearchEnds graph visits waiting seen found) :
      SearchEnds graph (visits + 1) (id :: waiting) seen found
  | first {visits id waiting seen found} (unseen : id ∉ seen)
      (rest : SearchEnds graph visits (waiting ++ graph.unseenProducers id (seen.insert id)) (seen.insert id) found) :
      SearchEnds graph (visits + 1) (id :: waiting) seen found

def unseenEdges (graph : Graph) (seen : Std.ExtTreeSet NodeId) : List Edge :=
  graph.edgeList.filter fun edge => !seen.contains edge.target.node

section Visits

variable {graph : Graph} {waiting : List NodeId} {seen found : Std.ExtTreeSet NodeId} {id : NodeId} {visits : Nat}

private theorem mem_insert {other : NodeId} : other ∈ seen.insert id ↔ other = id ∨ other ∈ seen := by
  rw [Std.ExtTreeSet.mem_insert, Std.compare_eq_iff_eq, eq_comm]

private theorem contains_insert (seen : Std.ExtTreeSet NodeId) (id other : NodeId) :
    (seen.insert id).contains other = (other == id || seen.contains other) := by
  rw [Bool.eq_iff_iff, Bool.or_eq_true, beq_iff_eq]
  simp only [Std.ExtTreeSet.contains_iff_mem, mem_insert]

private theorem contains_eq_false : seen.contains id = false ↔ id ∉ seen := by
  rw [← Bool.not_eq_true, Std.ExtTreeSet.contains_iff_mem]

theorem collectProducers_again (known : id ∈ seen) :
    graph.collectProducers (visits + 1) (id :: waiting) seen = graph.collectProducers visits waiting seen := by
  rw [collectProducers, if_pos (Std.ExtTreeSet.contains_iff_mem.mpr known)]

theorem collectProducers_first (unseen : id ∉ seen) : graph.collectProducers (visits + 1) (id :: waiting) seen =
    graph.collectProducers visits (waiting ++ graph.unseenProducers id (seen.insert id)) (seen.insert id) := by
  rw [collectProducers, if_neg fun inside => unseen (Std.ExtTreeSet.contains_iff_mem.mp inside)]
  rfl

/-- A bound that is not below the number of visits has no effect. -/
theorem SearchEnds.collectProducers_eq (ends : graph.SearchEnds visits waiting seen found) {bound : Nat}
    (enough : visits ≤ bound) : graph.collectProducers bound waiting seen = found := by
  induction ends generalizing bound with
  | done => cases bound <;> rfl
  | again known _ ih =>
    obtain ⟨bound, rfl⟩ := Nat.exists_eq_add_of_le' enough
    rw [← Nat.add_assoc, collectProducers_again known]
    exact ih (Nat.le_add_left _ _)
  | first unseen _ ih =>
    obtain ⟨bound, rfl⟩ := Nat.exists_eq_add_of_le' enough
    rw [← Nat.add_assoc, collectProducers_first unseen]
    exact ih (Nat.le_add_left _ _)

theorem WellFormed.mem_unseenProducers (wf : graph.WellFormed) {producer : NodeId} :
    producer ∈ graph.unseenProducers id seen ↔ graph.Feeds producer id ∧ producer ∉ seen := by
  rw [unseenProducers, List.mem_filter, ← wf.feeds_iff, Bool.not_eq_true', contains_eq_false]

theorem length_unseenProducers_le (graph : Graph) (id : NodeId) (seen : Std.ExtTreeSet NodeId) :
    (graph.unseenProducers id seen).length ≤ (graph.incomingEdges id).length :=
  (List.length_filter_le _ _).trans (List.length_map _).le

theorem WellFormed.length_unseenEdges_insert (wf : graph.WellFormed) (unseen : id ∉ seen) :
    (graph.unseenEdges (seen.insert id)).length + (graph.incomingEdges id).length =
      (graph.unseenEdges seen).length := by
  have kept : (graph.unseenEdges seen).filter (fun edge => edge.target.node != id) =
      graph.unseenEdges (seen.insert id) := by
    rw [unseenEdges, unseenEdges, List.filter_filter]
    apply List.filter_congr
    intro edge _
    rw [contains_insert, Bool.not_or]
    rfl
  have dropped : (graph.unseenEdges seen).filter (fun edge => !(edge.target.node != id)) =
      graph.edgeList.filter fun edge => edge.target.node == id := by
    rw [unseenEdges, List.filter_filter]
    apply List.filter_congr
    intro edge _
    by_cases here : edge.target.node = id
    · simp [here, contains_eq_false.mpr unseen]
    · simp [bne, beq_eq_false_iff_ne.mpr here]
  rw [(wf.perm_incomingEdges id).length_eq, ← dropped, ← kept]
  exact (List.length_eq_length_filter_add _).symm

/-- The search ends, from whatever nodes wait and whatever has been seen. -/
theorem WellFormed.exists_searchEnds (wf : graph.WellFormed) (waiting : List NodeId)
    (seen : Std.ExtTreeSet NodeId) {bound : Nat} (enough : waiting.length + (graph.unseenEdges seen).length ≤ bound) :
    ∃ visits ≤ bound, ∃ found, graph.SearchEnds visits waiting seen found := by
  induction bound generalizing waiting seen with
  | zero =>
    have empty : waiting = [] := List.length_eq_zero_iff.mp (by omega)
    subst empty
    exact ⟨0, Nat.le_refl 0, seen, .done⟩
  | succ bound ih =>
    cases waiting with
    | nil => exact ⟨0, Nat.zero_le _, seen, .done⟩
    | cons id waiting =>
      rw [List.length_cons] at enough
      by_cases known : id ∈ seen
      · obtain ⟨visits, most, found, ends⟩ := ih waiting seen (by omega)
        exact ⟨visits + 1, Nat.succ_le_succ most, found, .again known ends⟩
      · -- the edges that reach the node leave the measure, and no more nodes than there are of them join it
        have edges := wf.length_unseenEdges_insert known
        have added := graph.length_unseenProducers_le id (seen.insert id)
        obtain ⟨visits, most, found, ends⟩ := ih (waiting ++ graph.unseenProducers id (seen.insert id)) (seen.insert id)
          (by rw [List.length_append]; omega)
        exact ⟨visits + 1, Nat.succ_le_succ most, found, .first known ends⟩

end Visits

/-- As many visits as targets and edges are enough, so the search goes to its end. -/
theorem WellFormed.searchEnds_reachableTo {graph : Graph} (wf : graph.WellFormed) (targets : List NodeId) :
    ∃ visits ≤ targets.length + graph.edgeCount,
      graph.SearchEnds visits (targets.filter graph.hasNode) ∅ (graph.reachableTo targets) := by
  have enough : (targets.filter graph.hasNode).length + (graph.unseenEdges ∅).length ≤
      targets.length + graph.edgeCount := by
    have fewer := List.length_filter_le graph.hasNode targets
    have edges :=
      List.length_filter_le (fun edge => !(∅ : Std.ExtTreeSet NodeId).contains edge.target.node) graph.edgeList
    rw [graph.length_edgeList] at edges
    unfold unseenEdges
    omega
  obtain ⟨visits, most, found, ends⟩ := wf.exists_searchEnds _ _ enough
  refine ⟨visits, most, ?_⟩
  rw [reachableTo, ends.collectProducers_eq most]
  exact ends

/-! ## What is found -/

structure Collecting (graph : Graph) (targets waiting : List NodeId) (seen : Std.ExtTreeSet NodeId) : Prop where
  covers : ∀ target ∈ targets, target ∈ seen ∨ target ∈ waiting
  sound : ∀ id, id ∈ seen ∨ id ∈ waiting → ∃ target ∈ targets, graph.Reaches id target
  closed : ∀ {producer id}, id ∈ seen → graph.Feeds producer id → producer ∈ seen ∨ producer ∈ waiting

namespace Collecting

variable {graph : Graph} {targets waiting : List NodeId} {seen found : Std.ExtTreeSet NodeId}
    {id : NodeId} {visits : Nat}

theorem start (graph : Graph) (targets : List NodeId) : graph.Collecting targets targets ∅ := by
  refine ⟨fun target member => .inr member, ?_, ?_⟩
  · intro other found
    refine ⟨other, ?_, .refl⟩
    simpa using found
  · intro producer consumer impossible
    simp at impossible

theorem again (collecting : graph.Collecting targets (id :: waiting) seen) (known : id ∈ seen) :
    graph.Collecting targets waiting seen := by
  have settle {other : NodeId} (found : other ∈ seen ∨ other ∈ id :: waiting) : other ∈ seen ∨ other ∈ waiting := by
    rcases found with found | found
    · exact .inl found
    · rcases List.mem_cons.mp found with same | later
      · exact .inl (same ▸ known)
      · exact .inr later
  refine ⟨fun target member => settle (collecting.covers target member), ?_,
    fun inside feeds => settle (collecting.closed inside feeds)⟩
  intro other found
  exact collecting.sound other (found.imp_right (List.mem_cons_of_mem id))

theorem first (wf : graph.WellFormed) (collecting : graph.Collecting targets (id :: waiting) seen) :
    graph.Collecting targets (waiting ++ graph.unseenProducers id (seen.insert id)) (seen.insert id) := by
  have settle {other : NodeId} (found : other ∈ seen ∨ other ∈ id :: waiting) :
      other ∈ seen.insert id ∨ other ∈ waiting := by
    rw [List.mem_cons, ← or_assoc] at found
    refine found.imp_left fun found => ?_
    rw [mem_insert]
    exact found.symm
  refine ⟨?_, ?_, ?_⟩
  · intro target member
    exact (settle (collecting.covers target member)).imp_right (List.mem_append_left _)
  · have here := collecting.sound id (.inr List.mem_cons_self)
    intro other found
    rw [mem_insert, List.mem_append, wf.mem_unseenProducers] at found
    rcases found with (same | seen) | waits | ⟨feeds, _⟩
    · rwa [same]
    · exact collecting.sound other (.inl seen)
    · exact collecting.sound other (.inr (List.mem_cons_of_mem id waits))
    · obtain ⟨target, member, path⟩ := here
      exact ⟨target, member, .head feeds path⟩
  · intro producer consumer inside feeds
    rcases mem_insert.mp inside with same | earlier
    · subst same
      by_cases known : producer ∈ seen.insert consumer
      · exact .inl known
      · exact .inr (List.mem_append_right _ (wf.mem_unseenProducers.mpr ⟨feeds, known⟩))
    · exact (settle (collecting.closed earlier feeds)).imp_right (List.mem_append_left _)

theorem searchEnds (wf : graph.WellFormed) (collecting : graph.Collecting targets waiting seen)
    (ends : graph.SearchEnds visits waiting seen found) : graph.Collecting targets [] found := by
  induction ends with
  | done => exact collecting
  | again known _ ih => exact ih (collecting.again known)
  | first _ _ ih => exact ih (collecting.first wf)

end Collecting

theorem mem_reachableTo {graph : Graph} (wf : graph.WellFormed) {targets : List NodeId} {id : NodeId} :
    id ∈ graph.reachableTo targets ↔ ∃ target ∈ targets, graph.hasNode target ∧ graph.Reaches id target := by
  obtain ⟨_, _, ends⟩ := wf.searchEnds_reachableTo targets
  have done := (Collecting.start graph (targets.filter graph.hasNode)).searchEnds wf ends
  constructor
  · intro inside
    obtain ⟨target, member, path⟩ := done.sound id (.inl inside)
    obtain ⟨member, present⟩ := List.mem_filter.mp member
    exact ⟨target, member, present, path⟩
  · intro ⟨target, member, present, path⟩
    have settled {other : NodeId} (found : other ∈ graph.reachableTo targets ∨ other ∈ []) :
        other ∈ graph.reachableTo targets := by
      simpa using found
    induction path using Relation.ReflTransGen.head_induction_on with
    | refl => exact settled (done.covers target (List.mem_filter.mpr ⟨member, present⟩))
    | head feeds _ ih => exact settled (done.closed ih feeds)

theorem WellFormed.source_mem_reachableTo {graph : Graph} (wf : graph.WellFormed) {targets : List NodeId}
    {source target : Port}
    (inside : target.node ∈ graph.reachableTo targets) (fed : graph.producer? target = some source) :
    source.node ∈ graph.reachableTo targets := by
  obtain ⟨last, member, present, path⟩ := (mem_reachableTo wf).mp inside
  exact (mem_reachableTo wf).mpr ⟨last, member, present, .head (wf.feeds_of_producer? fed) path⟩

/-- The search ends by itself. It finds the nodes with a path to a target that is in the graph, and with a node all that
feeds it. -/
theorem search_finds_what_reaches {graph : Graph} (wf : graph.WellFormed) (targets : List NodeId) :
    (∃ visits ≤ targets.length + graph.edgeCount,
      graph.SearchEnds visits (targets.filter graph.hasNode) ∅ (graph.reachableTo targets)) ∧
    (∀ visits found, graph.SearchEnds visits (targets.filter graph.hasNode) ∅ found →
      found = graph.reachableTo targets) ∧
    (∀ id, id ∈ graph.reachableTo targets ↔ ∃ target ∈ targets, graph.hasNode target ∧ graph.Reaches id target) ∧
    ∀ source target, target.node ∈ graph.reachableTo targets → graph.producer? target = some source →
      source.node ∈ graph.reachableTo targets := by
  have ends := wf.searchEnds_reachableTo targets
  refine ⟨ends, ?_, fun _ => mem_reachableTo wf, fun _ _ => wf.source_mem_reachableTo⟩
  intro visits found other
  obtain ⟨least, _, ends⟩ := ends
  rw [← other.collectProducers_eq (Nat.le_max_left visits least),
    ends.collectProducers_eq (Nat.le_max_right visits least)]

/-- A circle that leads to a result, and a node behind the circle that feeds itself. -/
def coiled : Graph := Graph.empty.history
  [.addNode { id := "a", kind := .squeeze }, .addNode { id := "b", kind := .squeeze }, .addNode (.result "z"),
    .addNode { id := "c", kind := .squeeze }, .connect ⟨"a", 0⟩ ⟨"b", 0⟩, .connect ⟨"b", 0⟩ ⟨"a", 0⟩,
    .connect ⟨"b", 0⟩ ⟨"z", 0⟩, .connect ⟨"b", 0⟩ ⟨"c", 0⟩, .connect ⟨"c", 0⟩ ⟨"c", 1⟩]

/-- A target that is listed twice and one that is not in the graph do no harm. -/
theorem search_finds_what_reaches_coiled : coiled.WellFormed ∧
    (∃ visits ≤ 9, coiled.SearchEnds visits ["z", "z", "a"] ∅ (coiled.reachableTo ["z", "y", "z", "a"])) ∧
    (coiled.reachableTo ["z", "y", "z", "a"]).toList = ["a", "b", "z"] ∧ coiled.Reaches "a" "z" ∧
    ¬ coiled.Reaches "c" "z" := by
  have wf : coiled.WellFormed := wellFormed_empty.history _
  have present : coiled.hasNode "z" ∧ ["z", "y", "z", "a"].filter coiled.hasNode = ["z", "z", "a"] := by decide +kernel
  have found : (coiled.reachableTo ["z", "y", "z", "a"]).toList = ["a", "b", "z"] ∧
      "a" ∈ coiled.reachableTo ["z"] ∧ "c" ∉ coiled.reachableTo ["z"] := by decide +kernel
  obtain ⟨ends, _⟩ := search_finds_what_reaches wf ["z", "y", "z", "a"]
  obtain ⟨_, _, finds, _⟩ := search_finds_what_reaches wf ["z"]
  rw [present.2] at ends
  refine ⟨wf, ends, found.1, ?_, ?_⟩
  · obtain ⟨target, member, _, path⟩ := (finds "a").mp found.2.1
    rwa [List.mem_singleton.mp member] at path
  · exact fun path => found.2.2 ((finds "c").mpr ⟨"z", List.mem_singleton_self "z", present.1, path⟩)

end OpGraph.Graph
