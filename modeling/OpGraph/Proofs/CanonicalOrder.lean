import OpGraph.Proofs.Acyclicity
import OpGraph.Proofs.Histories

/-! The order that is found is the least of all orders. What any order has at a place was ready when the
search came to that place, so the search had a node there that is not greater. The counters are decremented
only while they are positive: the node that such an edge leads to still waits for it. -/

namespace OpGraph.Graph
open Std (ExtTreeMap)

structure ProducersFirst (graph : Graph) (order : List NodeId) : Prop where
  nodup : order.Nodup
  mem_iff : ∀ id, id ∈ order ↔ graph.hasNode id
  before : ∀ edge ∈ graph.edgeList, order.idxOf edge.source.node < order.idxOf edge.target.node

/-- No counter is negative, and none is decremented at zero while the next node is placed. -/
structure CountersHold (graph : Graph) (sorting : Sorting) : Prop where
  nonneg : ∀ {id : NodeId} {number : Int}, sorting.counters[id]? = some number → 0 ≤ number
  positive : ∀ {id stack released edge rest}, sorting.stack = id :: stack →
    graph.outgoingEdges id = released ++ edge :: rest →
    ∃ number, (released.foldl Sorting.release { sorting with stack }).counters[edge.target.node]? =
      some number ∧ 0 < number

/-- The stack has the nodes that wait with a counter of zero, each once, and the least of them on top. -/
structure StackHolds (placed : List NodeId) (sorting : Sorting) : Prop where
  ascending : sorting.stack.Pairwise (· < ·)
  mem_iff : ∀ id, id ∈ sorting.stack ↔ id ∉ placed ∧ sorting.counters[id]? = some 0

variable {graph : Graph}

/-! ## Orders -/

theorem readyOrder_of_idxOf_lt {placed order : List NodeId} (distinct : order.Nodup)
    (apart : ∀ id ∈ order, id ∉ placed)
    (before : ∀ edge ∈ graph.edgeList, edge.target.node ∈ order →
      edge.source.node ∈ placed ∨ order.idxOf edge.source.node < order.idxOf edge.target.node) :
    graph.ReadyOrder placed order := by
  induction order generalizing placed with
  | nil => trivial
  | cons id order ih =>
    obtain ⟨absent, distinct⟩ := List.nodup_cons.mp distinct
    refine ⟨apart id List.mem_cons_self, ?_, ih distinct ?_ ?_⟩
    · intro edge member target
      refine (before edge member (target ▸ List.mem_cons_self)).resolve_right ?_
      rw [target, List.idxOf_cons_self]
      exact Nat.not_lt_zero _
    · intro other later
      rw [List.mem_cons, not_or]
      exact ⟨fun same => absent (same ▸ later), apart other (List.mem_cons_of_mem id later)⟩
    · intro edge member later
      have other : id ≠ edge.target.node := fun same => absent (same ▸ later)
      by_cases first : edge.source.node = id
      · exact .inl (first ▸ List.mem_cons_self)
      · refine (before edge member (List.mem_cons_of_mem id later)).imp (List.mem_cons_of_mem id) fun below => ?_
        rw [List.idxOf_cons_ne order (Ne.symm first), List.idxOf_cons_ne order other] at below
        exact Nat.lt_of_succ_lt_succ below

theorem isOrder_iff (wf : graph.WellFormed) {order : List NodeId} :
    graph.IsOrder order ↔ graph.ProducersFirst order := by
  constructor
  · intro ordered
    refine ⟨ordered.legal.nodup, ordered.mem_iff, fun edge member => ?_⟩
    exact ordered.ascends wf _ _ ⟨edge, member, rfl, rfl⟩
  · intro first
    refine ⟨readyOrder_of_idxOf_lt first.nodup (fun _ _ => List.not_mem_nil) ?_, first.mem_iff⟩
    exact fun edge member _ => .inr (first.before edge member)

theorem ProducersFirst.length_eq {order : List NodeId} (first : graph.ProducersFirst order) :
    order.length = graph.nodeCount := by
  have same : order.Perm graph.nodes.keys :=
    (List.perm_ext_iff_of_nodup first.nodup ExtTreeMap.nodup_keys).mpr fun id =>
      (first.mem_iff id).trans ExtTreeMap.mem_keys.symm
  rw [same.length_eq, ExtTreeMap.length_keys, nodeCount]

/-! ## The least order -/

/-- Of the nodes that nothing holds back the least is placed. -/
theorem Sorting.Stands.top_le {placed : List NodeId} {sorting : Sorting} (stands : sorting.Stands graph placed)
    {id other : NodeId} {stack : List NodeId} (top : sorting.stack = id :: stack) (waits : other ∈ sorting.stack) :
    id ≤ other := by
  rw [top] at waits
  rcases List.mem_cons.mp waits with same | later
  · exact Std.le_of_eq same.symm
  · exact Std.le_of_lt ((stands.ascending_tail top).1 other later)

/-- No legal order of as many nodes comes before the one that is found. -/
theorem place_le_of_readyOrder (wf : graph.WellFormed) {placed order : List NodeId} {sorting : Sorting}
    (stands : sorting.Stands graph placed) (legal : graph.ReadyOrder placed order)
    (present : ∀ id ∈ order, graph.hasNode id) :
    (graph.place order.length sorting).1 = order ∨ List.Lex (· < ·) (graph.place order.length sorting).1 order := by
  induction order generalizing placed sorting with
  | nil => exact .inl rfl
  | cons first order ih =>
    obtain ⟨fresh, unheld, legal⟩ := legal
    obtain ⟨known, others⟩ := List.forall_mem_cons.mp present
    have waits := (stands.mem_stack first).mpr ⟨known, fresh, heldBy_eq_nil unheld⟩
    cases top : sorting.stack with
    | nil => exact absurd (top ▸ waits) List.not_mem_nil
    | cons id stack =>
      simp only [List.length_cons, place, top]
      rcases Std.le_iff_lt_or_eq.mp (stands.top_le top waits) with below | same
      · exact .inr (.rel below)
      · subst same
        exact (ih (stands.releaseAll wf top) legal others).imp (congrArg _) .cons

theorem place_eq_of_topologicalOrder {order : List NodeId} (sorted : graph.topologicalOrder = .ok order) :
    (graph.place graph.nodeCount graph.startSorting).1 = order := by
  simp only [topologicalOrder] at sorted
  split at sorted
  · exact Except.ok.inj sorted
  · cases sorted

/-- An order is found exactly if it is the least of all. -/
theorem topologicalOrder_eq_ok_iff (wf : graph.WellFormed) {order : List NodeId} :
    graph.topologicalOrder = .ok order ↔ graph.ProducersFirst order ∧
      ∀ other, graph.ProducersFirst other → other ≠ order → List.Lex (· < ·) order other := by
  have least {found other : List NodeId} (sorted : graph.topologicalOrder = .ok found)
      (first : graph.ProducersFirst other) (different : other ≠ found) : List.Lex (· < ·) found other := by
    have ordered := (isOrder_iff wf).mpr first
    have below := place_le_of_readyOrder wf (Sorting.stands_start graph) ordered.legal fun id => (ordered.mem_iff id).mp
    rw [first.length_eq, place_eq_of_topologicalOrder sorted] at below
    exact below.resolve_left (Ne.symm different)
  constructor
  · intro sorted
    exact ⟨(isOrder_iff wf).mp (topologicalOrder_isOrder wf sorted), fun other => least sorted⟩
  · intro ⟨first, minimal⟩
    have acyclic := (((isOrder_iff wf).mpr first).ascends wf).acyclic
    obtain ⟨found, sorted⟩ := (exists_topologicalOrder_iff wf).mpr acyclic
    by_cases same : found = order
    · exact same ▸ sorted
    · have above := minimal found ((isOrder_iff wf).mp (topologicalOrder_isOrder wf sorted)) same
      exact absurd above (List.lt_asymm (least sorted first (Ne.symm same)))

/-! ## Counters and stack -/

namespace Sorting.Stands

variable {placed : List NodeId} {sorting : Sorting} (stands : sorting.Stands graph placed)
include stands

/-- The edges that leave the next node lead to nodes that wait, and each of them is counted there. -/
theorem release_pos (wf : graph.WellFormed) {id : NodeId} {stack : List NodeId} (top : sorting.stack = id :: stack)
    {released rest : List Edge} {edge : Edge} (leaving : graph.outgoingEdges id = released ++ edge :: rest) :
    ∃ number, (released.foldl Sorting.release { sorting with stack }).counters[edge.target.node]? = some number ∧
      0 < number := by
  obtain ⟨_, fresh, _⟩ := stands.free_top top
  obtain ⟨stored, _⟩ := wf.mem_outgoingEdges.mp (leaving ▸ List.mem_append_right released List.mem_cons_self)
  have counter := getElem?_foldl_release released { sorting with stack } edge.target.node
  rw [stands.counts, if_pos (wf.hasNode_target stored), Option.map_some] at counter
  have held := length_heldBy_cons wf fresh edge.target.node
  simp only [leaving, List.filter_append, List.filter_cons, beq_self_eq_true, if_true, List.length_append,
    List.length_cons] at held
  exact ⟨_, counter, by omega⟩

theorem countersHold (wf : graph.WellFormed) : graph.CountersHold sorting := by
  refine ⟨fun found => ?_, fun top leaving => stands.release_pos wf top leaving⟩
  rw [stands.counts] at found
  split at found
  · cases found
    exact Int.natCast_nonneg _
  · cases found

theorem stackHolds : StackHolds placed sorting := by
  refine ⟨stands.ascending, fun id => ?_⟩
  rw [stands.mem_stack, stands.counts.getElem?_eq_zero_iff]
  exact and_left_comm

end Sorting.Stands

/-- Where fewer nodes are placed than were to be, none is ready any more. -/
theorem stack_place_eq_nil (graph : Graph) (sorting : Sorting) (count : Nat)
    (early : (graph.place count sorting).1.length ≠ count) : (graph.place count sorting).2.stack = [] := by
  induction count generalizing sorting with
  | zero => exact absurd rfl early
  | succ count ih =>
    cases top : sorting.stack with
    | nil => simp only [place, top]
    | cons id stack =>
      simp only [place, top, List.length_cons] at early ⊢
      exact ih _ fun whole => early (congrArg (· + 1) whole)

/-- After as many placements as there are nodes the stack is empty, so that the search ends by itself. -/
theorem stack_place_nodeCount (wf : graph.WellFormed) :
    (graph.place graph.nodeCount graph.startSorting).2.stack = [] := by
  by_contra waits
  have stands := stands_place wf (Sorting.stands_start graph) graph.nodeCount
  obtain ⟨legal, present⟩ := readyOrder_place wf (Sorting.stands_start graph) graph.nodeCount
  have complete := not_not.mp (mt (stack_place_eq_nil graph graph.startSorting graph.nodeCount) waits)
  have all := mem_of_length_eq legal.nodup present complete
  obtain ⟨id, member⟩ := List.exists_mem_of_ne_nil _ waits
  obtain ⟨known, fresh, _⟩ := (stands.mem_stack id).mp member
  exact fresh (List.mem_append_left [] (List.mem_reverse.mpr (all id known)))

/-! ## The search as a whole -/

/-- The search succeeds on the graphs without a circle; what it finds is the least of all orders in which
producers come first. However many nodes have been placed, no counter is negative, and the stack has
exactly the other nodes with a counter of zero; in the end it is empty. -/
theorem topologicalOrder_canonical (wf : graph.WellFormed) :
    ((∃ order, graph.topologicalOrder = .ok order) ↔ graph.Acyclic) ∧
    (∀ order, graph.topologicalOrder = .ok order ↔ graph.ProducersFirst order ∧
      ∀ other, graph.ProducersFirst other → other ≠ order → List.Lex (· < ·) order other) ∧
    (∀ count, graph.CountersHold (graph.place count graph.startSorting).2 ∧
      StackHolds (graph.place count graph.startSorting).1 (graph.place count graph.startSorting).2) ∧
    (graph.place graph.nodeCount graph.startSorting).2.stack = [] := by
  refine ⟨exists_topologicalOrder_iff wf, fun _ => topologicalOrder_eq_ok_iff wf, fun count => ?_,
    stack_place_nodeCount wf⟩
  have stands := stands_place wf (Sorting.stands_start graph) count
  refine ⟨stands.countersHold wf, stands.ascending, fun id => ?_⟩
  rw [stands.stackHolds.mem_iff, List.append_nil, List.mem_reverse]

/-- Between the first node and the last one, two nodes that could come in either order. -/
def layered : Graph := Graph.empty.history
  [.addNode (.result "c"), .addNode { id := "b", kind := .shapeOf }, .addNode { id := "a", kind := .squeeze },
    .addNode (.parameter "z" none), .connect ⟨"z", 0⟩ ⟨"a", 1⟩, .connect ⟨"z", 0⟩ ⟨"b", 0⟩, .connect ⟨"z", 0⟩ ⟨"a", 0⟩,
    .connect ⟨"b", 0⟩ ⟨"c", 1⟩, .connect ⟨"a", 0⟩ ⟨"c", 0⟩]

theorem topologicalOrder_canonical_layered : layered.WellFormed ∧ layered.Acyclic ∧
    layered.topologicalOrder = .ok ["z", "a", "b", "c"] ∧ layered.ProducersFirst ["z", "b", "a", "c"] ∧
    List.Lex (· < ·) ["z", "a", "b", "c"] ["z", "b", "a", "c"] ∧
    layered.CountersHold (layered.place 1 layered.startSorting).2 ∧
    (layered.place 1 layered.startSorting).2.stack = ["a", "b"] ∧
    StackHolds ["z"] (layered.place 1 layered.startSorting).2 ∧
    (layered.place 4 layered.startSorting).2.stack = [] := by
  have wf : layered.WellFormed := wellFormed_empty.history _
  have sorted : layered.topologicalOrder = .ok ["z", "a", "b", "c"] := by decide +kernel
  have legal : layered.ReadyOrder [] ["z", "b", "a", "c"] := by decide +kernel
  have placed : (layered.place 1 layered.startSorting).1 = ["z"] ∧
      (layered.place 1 layered.startSorting).2.stack = ["a", "b"] := by decide +kernel
  obtain ⟨exists_iff, least, steps, ended⟩ := topologicalOrder_canonical wf
  obtain ⟨counters, stack⟩ := steps 1
  rw [placed.1] at stack
  obtain ⟨first, below⟩ := (least _).mp sorted
  have same : (["z", "b", "a", "c"] : List NodeId).Perm ["z", "a", "b", "c"] := by decide
  have other := (isOrder_iff wf).mp ⟨legal, fun id => same.mem_iff.trans (first.mem_iff id)⟩
  exact ⟨wf, exists_iff.mp ⟨_, sorted⟩, sorted, other, below _ other (by decide), counters, placed.2, stack, ended⟩

end OpGraph.Graph
