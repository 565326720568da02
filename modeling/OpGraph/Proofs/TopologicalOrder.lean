import OpGraph.Graph.TopologicalOrder
import OpGraph.Proofs.Queries
import Mathlib.Data.List.Perm.Subperm
import Mathlib.Data.List.Sort
import Mathlib.Data.String.Basic

/-! What the canonical order guarantees. While nodes are placed, each counter is the number of edges from nodes
not placed yet, and the stack holds exactly the nodes that wait with a counter of zero, so a node is placed
after all its producers. A push happens where a counter comes down to zero, which it does once. -/

namespace OpGraph.Graph
open Std (ExtTreeMap)

/-- Each node comes once, and after all that feed it. -/
def ReadyOrder (graph : Graph) : (placed : List NodeId) → (order : List NodeId) → Prop
  | _, [] => True
  | placed, id :: order => id ∉ placed ∧
      (∀ edge ∈ graph.edgeList, edge.target.node = id → edge.source.node ∈ placed) ∧
      ReadyOrder graph (id :: placed) order

def heldBy (graph : Graph) (placed : List NodeId) (id : NodeId) : List Edge :=
  graph.edgeList.filter fun edge => edge.target.node == id && !placed.contains edge.source.node

def Counts (graph : Graph) (placed : List NodeId) (counters : Counters) : Prop :=
  ∀ id : NodeId, counters[id]? = if graph.hasNode id then some ((graph.heldBy placed id).length : Int) else none

/-- How the search stands once some nodes are placed. -/
structure Sorting.Stands (graph : Graph) (placed : List NodeId) (sorting : Sorting) : Prop where
  counts : graph.Counts placed sorting.counters
  ascending : sorting.stack.Pairwise (· < ·)
  mem_stack : ∀ id, id ∈ sorting.stack ↔ graph.hasNode id ∧ id ∉ placed ∧ graph.heldBy placed id = []
  closed : ∀ edge ∈ graph.edgeList, edge.target.node ∈ placed → edge.source.node ∈ placed

/-! ## The stack -/

theorem sortIds_eq (ids : List NodeId) : sortIds ids = ids.insertionSort (· ≤ ·) := by
  have insert (id : NodeId) (ids : List NodeId) : insertId id ids = ids.orderedInsert (· ≤ ·) id := by
    induction ids with
    | nil => rfl
    | cons other ids ih => rw [insertId, List.orderedInsert_cons, ih]
  induction ids with
  | nil => rfl
  | cons id ids ih => rw [List.insertionSort_cons, ← ih, ← insert]; rfl

theorem perm_sortIds (ids : List NodeId) : (sortIds ids).Perm ids := by
  rw [sortIds_eq]
  exact List.perm_insertionSort _ ids

theorem sortIds_le (ids : List NodeId) : (sortIds ids).Pairwise (· ≤ ·) := by
  rw [sortIds_eq]
  exact List.pairwise_insertionSort _ ids

theorem sortIds_lt {ids : List NodeId} (distinct : ids.Nodup) : (sortIds ids).Pairwise (· < ·) := by
  refine ((sortIds_le ids).and ((perm_sortIds ids).nodup_iff.mpr distinct)).imp ?_
  intro first second order
  exact Std.lt_of_le_of_ne order.1 order.2

theorem sortIds_eq_of_perm {ids others : List NodeId} (same : ids.Perm others) : sortIds ids = sortIds others := by
  refine List.Perm.eq_of_pairwise ?_ (sortIds_le ids) (sortIds_le others)
    (((perm_sortIds ids).trans same).trans (perm_sortIds others).symm)
  intro first second _ _
  exact String.le_antisymm

theorem getElem?_release (sorting : Sorting) (edge : Edge) (id : NodeId) :
    (sorting.release edge).counters[id]? =
      if edge.target.node = id then sorting.counters[id]?.map (· - 1) else sorting.counters[id]? := by
  rw [Sorting.release, ExtTreeMap.getElem?_modify]
  by_cases here : edge.target.node = id <;> simp [here]

theorem getElem?_foldl_release (edges : List Edge) (sorting : Sorting) (id : NodeId) :
    (edges.foldl Sorting.release sorting).counters[id]? =
      sorting.counters[id]?.map (· - ((edges.filter fun edge => edge.target.node == id).length : Int)) := by
  induction edges generalizing sorting with
  | nil => simp
  | cons edge edges ih =>
    rw [List.foldl_cons, ih, getElem?_release, List.filter_cons]
    by_cases here : edge.target.node = id
    · simp only [here, if_true, beq_self_eq_true, List.length_cons]
      cases sorting.counters[id]? with
      | none => rfl
      | some count =>
        simp only [Option.map_some, Option.some.injEq]
        omega
    · simp [here]

def frees (edges : Nat) (counter : Option Int) : Bool :=
  counter.any fun number : Int => 0 < number && number ≤ edges

/-- The first edge takes the counter to zero, or the others do, and not both. -/
theorem toNat_frees_succ (edges : Nat) (counter : Option Int) :
    (frees 1 counter).toNat + (frees edges (counter.map (· - 1))).toNat = (frees (edges + 1) counter).toNat := by
  cases counter with
  | none => rfl
  | some number =>
    simp only [frees, Option.map_some, Option.any_some, Bool.toNat, Bool.cond_eq_ite, Bool.and_eq_true,
      decide_eq_true_eq]
    split <;> split <;> split <;> omega

theorem count_release (sorting : Sorting) (edge : Edge) (id : NodeId) :
    (sorting.release edge).stack.count id = sorting.stack.count id +
      (edge.target.node == id && frees 1 sorting.counters[id]?).toNat := by
  have freed : frees 1 sorting.counters[edge.target.node]? =
      (sorting.counters[edge.target.node]?.map (· - 1) == some 0) := by
    cases sorting.counters[edge.target.node]? with
    | none => rfl
    | some number =>
      rw [Bool.eq_iff_iff]
      simp only [frees, Option.any_some, Bool.and_eq_true, decide_eq_true_eq, Option.map_some, beq_iff_eq,
        Option.some.injEq]
      omega
  rw [Sorting.release, ExtTreeMap.getElem?_modify_self, ← freed]
  by_cases here : edge.target.node = id
  · subst here
    cases frees 1 sorting.counters[edge.target.node]? <;> simp
  · cases frees 1 sorting.counters[edge.target.node]? <;> simp [here]

/-- A node is pushed once if the edges take its counter down to zero, and not at all otherwise. -/
theorem count_foldl_release (edges : List Edge) (sorting : Sorting) (id : NodeId) :
    (edges.foldl Sorting.release sorting).stack.count id = sorting.stack.count id +
      (frees (edges.filter fun edge => edge.target.node == id).length sorting.counters[id]?).toNat := by
  induction edges generalizing sorting with
  | nil =>
    have unfreed : frees 0 sorting.counters[id]? = false := by
      cases sorting.counters[id]? with
      | none => rfl
      | some number =>
        simp only [frees, Option.any_some, Bool.and_eq_false_iff, decide_eq_false_iff_not]
        omega
    rw [List.filter_nil, List.length_nil, unfreed]
    rfl
  | cons edge edges ih =>
    rw [List.foldl_cons, ih, count_release, getElem?_release, List.filter_cons, Nat.add_assoc]
    congr 1
    by_cases here : edge.target.node = id
    · simp only [here, if_true, beq_self_eq_true, Bool.true_and, List.length_cons, toNat_frees_succ]
    · simp [here]

theorem mem_foldl_release (edges : List Edge) (sorting : Sorting) (id : NodeId) :
    id ∈ (edges.foldl Sorting.release sorting).stack ↔
      id ∈ sorting.stack ∨ frees (edges.filter fun edge => edge.target.node == id).length sorting.counters[id]? := by
  rw [← List.count_pos_iff, count_foldl_release, ← List.count_pos_iff]
  cases frees _ sorting.counters[id]? <;> simp

/-! ## What the search keeps -/

theorem counts_inDegrees (graph : Graph) : graph.Counts [] graph.inDegrees := by
  intro id
  rw [inDegrees, ExtTreeMap.getElem?_map]
  cases found : graph.nodes[id]? with
  | none =>
    have absent : graph.hasNode id = false := by
      rw [hasNode_eq_isSome, show graph.node? id = none from found]
      rfl
    simp [absent]
  | some node =>
    have present : graph.hasNode id := hasNode_of_node? found
    simp [present, heldBy]

theorem Counts.getElem?_eq_zero_iff {graph : Graph} {placed : List NodeId} {counters : Counters}
    (counts : graph.Counts placed counters) (id : NodeId) :
    counters[id]? = some 0 ↔ graph.hasNode id ∧ graph.heldBy placed id = [] := by
  rw [counts]
  split
  next present => simp [present]
  next absent => simp [absent]

theorem Counts.frees_iff {graph : Graph} {placed : List NodeId} {counters : Counters}
    (counts : graph.Counts placed counters) (edges : Nat) (id : NodeId) :
    frees edges counters[id]? ↔
      graph.hasNode id ∧ 0 < (graph.heldBy placed id).length ∧ (graph.heldBy placed id).length ≤ edges := by
  rw [counts]
  split
  next present => simp [frees, present]
  next absent => simp [frees, absent]

theorem heldBy_eq_nil {graph : Graph} {placed : List NodeId} {id : NodeId}
    (ready : ∀ edge ∈ graph.edgeList, edge.target.node = id → edge.source.node ∈ placed) :
    graph.heldBy placed id = [] := by
  rw [heldBy, List.filter_eq_nil_iff]
  intro edge member holds
  simp only [Bool.and_eq_true, beq_iff_eq, Bool.not_eq_true', List.contains_eq_mem, decide_eq_false_iff_not] at holds
  exact holds.2 (ready edge member holds.1)

/-- A placed node no longer holds back the nodes that it feeds. -/
theorem length_heldBy_cons {graph : Graph} (wf : graph.WellFormed) {placed : List NodeId} {id : NodeId}
    (fresh : id ∉ placed) (other : NodeId) :
    (graph.heldBy (id :: placed) other).length +
      ((graph.outgoingEdges id).filter fun edge => edge.target.node == other).length =
      (graph.heldBy placed other).length := by
  have kept : (graph.heldBy placed other).filter (fun edge => edge.source.node != id) =
      graph.heldBy (id :: placed) other := by
    rw [heldBy, heldBy, List.filter_filter]
    apply List.filter_congr
    intro edge _
    by_cases here : edge.source.node = id <;> simp [here]
  have released : (graph.heldBy placed other).filter (fun edge => !(edge.source.node != id)) =
      (graph.edgeList.filter fun edge => edge.source.node == id).filter fun edge => edge.target.node == other := by
    rw [heldBy, List.filter_filter, List.filter_filter]
    apply List.filter_congr
    intro edge _
    by_cases here : edge.source.node = id
    · simp [here, fresh]
    · simp [bne, beq_eq_false_iff_ne.mpr here]
  have outgoing := ((wf.perm_outgoingEdges id).filter fun edge => edge.target.node == other).length_eq
  rw [outgoing, ← released, ← kept]
  exact (List.length_eq_length_filter_add _).symm

namespace Sorting

variable {graph : Graph} {placed : List NodeId} {sorting : Sorting}

theorem stands_start (graph : Graph) : graph.startSorting.Stands graph [] := by
  have counts := counts_inDegrees graph
  let free := (graph.inDegrees.toList.filter fun entry => entry.2 == 0).map Prod.fst
  have distinct : free.Nodup := by
    refine List.Nodup.sublist (List.filter_sublist.map _) ?_
    rw [ExtTreeMap.map_fst_toList_eq_keys]
    exact ExtTreeMap.nodup_keys
  have mem_free (id : NodeId) : id ∈ free ↔ graph.inDegrees[id]? = some 0 := by
    simp [free, ExtTreeMap.mem_toList_iff_getElem?_eq_some]
  refine ⟨counts, sortIds_lt distinct, fun id => ?_, fun _ _ inside => absurd inside List.not_mem_nil⟩
  rw [startSorting, (perm_sortIds _).mem_iff, mem_free, counts.getElem?_eq_zero_iff]
  simp

/-- An edge holds back no node that was placed, or that lies on the stack. -/
theorem Stands.heldBy_eq_nil (stands : sorting.Stands graph placed) {id : NodeId}
    (free : id ∈ placed ∨ id ∈ sorting.stack) : graph.heldBy placed id = [] := by
  rcases free with inside | waits
  · exact Graph.heldBy_eq_nil fun edge member target => stands.closed edge member (target ▸ inside)
  · exact ((stands.mem_stack id).mp waits).2.2

theorem mem_placed_of_heldBy_eq_nil {id : NodeId} (free : graph.heldBy placed id = []) {edge : Edge}
    (member : edge ∈ graph.edgeList) (target : edge.target.node = id) : edge.source.node ∈ placed := by
  by_contra waits
  have holds : edge ∈ graph.heldBy placed id := by simp [heldBy, member, target, waits]
  rw [free] at holds
  cases holds

section Placing

variable (stands : sorting.Stands graph placed) (wf : graph.WellFormed) {id : NodeId} {stack : List NodeId}
  (top : sorting.stack = id :: stack)
include stands top

theorem Stands.free_top : graph.hasNode id ∧ id ∉ placed ∧ graph.heldBy placed id = [] :=
  (stands.mem_stack id).mp (top ▸ List.mem_cons_self)

theorem Stands.ascending_tail : (∀ other ∈ stack, id < other) ∧ stack.Pairwise (· < ·) := by
  have ascending := stands.ascending
  rwa [top, List.pairwise_cons] at ascending

theorem Stands.mem_tail (other : NodeId) :
    other ∈ stack ↔ other ≠ id ∧ graph.hasNode other ∧ other ∉ placed ∧ graph.heldBy placed other = [] := by
  obtain ⟨above, _⟩ := stands.ascending_tail top
  rw [← stands.mem_stack other, top, List.mem_cons]
  constructor
  · intro member
    exact ⟨Ne.symm (Std.ne_of_lt (above other member)), .inr member⟩
  · intro ⟨different, member⟩
    exact member.resolve_left different

/-- A node is pushed only where its counter was above zero, and no such node is on the stack. -/
theorem Stands.nodup_released (edges : List Edge) :
    (edges.foldl Sorting.release { sorting with stack }).stack.Nodup := by
  obtain ⟨_, ascending⟩ := stands.ascending_tail top
  rw [List.nodup_iff_count_le_one]
  intro other
  rw [count_foldl_release]
  by_cases member : other ∈ stack
  · obtain ⟨_, _, _, unheld⟩ := (stands.mem_tail top other).mp member
    have unpushed (edges : Nat) : frees edges sorting.counters[other]? = false := by
      rw [Bool.eq_false_iff, Ne, stands.counts.frees_iff, unheld]
      simp
    rw [unpushed, List.count_eq_one_of_mem (ascending.imp Std.ne_of_lt) member]
    exact Nat.le_refl 1
  · rw [List.count_eq_zero.mpr member, Nat.zero_add]
    exact Bool.toNat_le _

include wf

/-- The nodes on the stack afterwards are those that no node holds back which is not placed. -/
theorem Stands.mem_released (other : NodeId) :
    other ∈ ((graph.outgoingEdges id).foldl Sorting.release { sorting with stack }).stack ↔
      graph.hasNode other ∧ other ∉ id :: placed ∧ graph.heldBy (id :: placed) other = [] := by
  obtain ⟨_, fresh, _⟩ := stands.free_top top
  have held := length_heldBy_cons wf fresh other
  rw [mem_foldl_release, stands.mem_tail top, stands.counts.frees_iff, ← List.length_eq_zero_iff,
    ← List.length_eq_zero_iff, List.mem_cons, not_or]
  constructor
  · rintro (⟨different, present, waits, unheld⟩ | ⟨present, positive, most⟩)
    · exact ⟨present, ⟨different, waits⟩, by omega⟩
    · have apart : ¬ (other ∈ placed ∨ other ∈ sorting.stack) := by
        intro free
        rw [stands.heldBy_eq_nil free] at positive
        exact Nat.lt_irrefl 0 positive
      rw [top, List.mem_cons, not_or, not_or] at apart
      exact ⟨present, ⟨apart.2.1, apart.1⟩, by omega⟩
  · intro ⟨present, ⟨different, waits⟩, unheld⟩
    rcases Nat.eq_zero_or_pos (graph.heldBy placed other).length with free | positive
    · exact .inl ⟨different, present, waits, free⟩
    · exact .inr ⟨present, positive, by omega⟩

/-- The node on top of the stack is placed, and the edges from it are released. -/
theorem Stands.releaseAll : (graph.releaseAll { sorting with stack } id).Stands graph (id :: placed) := by
  obtain ⟨_, fresh, free⟩ := stands.free_top top
  refine ⟨fun other => ?_, sortIds_lt (stands.nodup_released top _), fun other => ?_, ?_⟩
  · have counter := getElem?_foldl_release (graph.outgoingEdges id) { sorting with stack } other
    rw [Graph.releaseAll, counter, stands.counts]
    have held := length_heldBy_cons wf fresh other
    split
    · simp only [Option.map_some, Option.some.injEq]
      omega
    · rfl
  · rw [Graph.releaseAll, (perm_sortIds _).mem_iff, stands.mem_released wf top]
  · intro edge member inside
    rcases List.mem_cons.mp inside with here | before
    · exact List.mem_cons_of_mem id (mem_placed_of_heldBy_eq_nil free member here)
    · exact List.mem_cons_of_mem id (stands.closed edge member before)

end Placing

end Sorting

/-- Whatever number of nodes is placed, the search stands as it should. -/
theorem stands_place {graph : Graph} (wf : graph.WellFormed) {placed : List NodeId} {sorting : Sorting}
    (stands : sorting.Stands graph placed) (count : Nat) :
    (graph.place count sorting).2.Stands graph ((graph.place count sorting).1.reverse ++ placed) := by
  induction count generalizing placed sorting with
  | zero => exact stands
  | succ count ih =>
    cases top : sorting.stack with
    | nil => simpa only [place, top, List.reverse_nil, List.nil_append] using stands
    | cons id stack =>
      have later := ih (stands.releaseAll wf top)
      simpa only [place, top, List.reverse_cons, List.append_assoc, List.cons_append, List.nil_append] using later

/-- The nodes are placed in a legal order. -/
theorem readyOrder_place {graph : Graph} (wf : graph.WellFormed) {placed : List NodeId} {sorting : Sorting}
    (stands : sorting.Stands graph placed) (count : Nat) :
    graph.ReadyOrder placed (graph.place count sorting).1 ∧
      ∀ id ∈ (graph.place count sorting).1, graph.hasNode id := by
  induction count generalizing placed sorting with
  | zero => exact ⟨trivial, by simp [place]⟩
  | succ count ih =>
    rw [place]
    cases top : sorting.stack with
    | nil => exact ⟨trivial, by simp⟩
    | cons id stack =>
      obtain ⟨present, fresh, free⟩ := stands.free_top top
      obtain ⟨legal, later⟩ := ih (stands.releaseAll wf top)
      exact ⟨⟨fresh, fun _ => Sorting.mem_placed_of_heldBy_eq_nil free, legal⟩,
        List.forall_mem_cons.mpr ⟨present, later⟩⟩

theorem ReadyOrder.disjoint {graph : Graph} {placed order : List NodeId} (legal : graph.ReadyOrder placed order) :
    ∀ id ∈ order, id ∉ placed := by
  induction order generalizing placed with
  | nil => simp
  | cons first order ih =>
    obtain ⟨fresh, _, legal⟩ := legal
    intro id member
    rcases List.mem_cons.mp member with same | later
    · rwa [same]
    · have apart := ih legal id later
      exact fun inside => apart (by simp [inside])

theorem ReadyOrder.nodup {graph : Graph} {placed order : List NodeId} (legal : graph.ReadyOrder placed order) :
    order.Nodup := by
  induction order generalizing placed with
  | nil => exact List.nodup_nil
  | cons first order ih =>
    obtain ⟨_, _, legal⟩ := legal
    refine List.nodup_cons.mpr ⟨?_, ih legal⟩
    intro later
    exact legal.disjoint first later (by simp)

/-- As many different nodes as there are in all are all of them. -/
theorem mem_of_length_eq {graph : Graph} {order : List NodeId} (distinct : order.Nodup)
    (present : ∀ id ∈ order, graph.hasNode id) (complete : order.length = graph.nodeCount) (id : NodeId)
    (known : graph.hasNode id) : id ∈ order := by
  have inside : order ⊆ graph.nodes.keys := fun other member => ExtTreeMap.mem_keys.mpr (present other member)
  have size : graph.nodes.keys.length = graph.nodeCount := ExtTreeMap.length_keys
  have whole := (List.subperm_of_subset distinct inside).perm_of_length_le (by rw [size, complete])
  exact whole.mem_iff.mpr (ExtTreeMap.mem_keys.mpr known)

/-- An order that was found is legal, and all nodes are in it. -/
theorem topologicalOrder_eq_ok {graph : Graph} (wf : graph.WellFormed) {order : List NodeId}
    (found : graph.topologicalOrder = .ok order) :
    graph.ReadyOrder [] order ∧ ∀ id, id ∈ order ↔ graph.hasNode id := by
  obtain ⟨legal, present⟩ := readyOrder_place wf (Sorting.stands_start graph) graph.nodeCount
  rcases placed : graph.place graph.nodeCount graph.startSorting with ⟨all, last⟩
  simp only [topologicalOrder, placed] at found legal present
  split at found
  next complete =>
    cases found
    exact ⟨legal, fun id => ⟨present id, mem_of_length_eq legal.nodup present complete id⟩⟩
  next => cases found

end OpGraph.Graph
