import OpGraph.Proofs.Reachability
import OpGraph.Proofs.TopologicalOrder
import Mathlib.Order.WellFoundedSet

/-! The order is found exactly where there is no circle. Of the nodes that wait in a graph without circles
one is fed by no other, so the search never stops early; an order that was found gives each node a
height, and edges only lead upwards. Passes are shown to close no circle through such heights. -/

namespace OpGraph.Graph
open Std (ExtTreeMap)

def Acyclic (graph : Graph) : Prop := ∀ id, ¬ Relation.TransGen graph.Feeds id id

def OnCircle (graph : Graph) (id : NodeId) : Prop := Relation.TransGen graph.Feeds id id

def FollowsCircle (graph : Graph) (id : NodeId) : Prop := ∃ first, graph.OnCircle first ∧ graph.Reaches first id

def Ascends (graph : Graph) (height : NodeId → Nat) : Prop :=
  ∀ producer consumer, graph.Feeds producer consumer → height producer < height consumer

instance decidableReadyOrder (graph : Graph) :
    (placed order : List NodeId) → Decidable (graph.ReadyOrder placed order)
  | _, [] => .isTrue trivial
  | placed, id :: order =>
    have := decidableReadyOrder graph (id :: placed) order
    inferInstanceAs (Decidable (_ ∧ _ ∧ _))

structure IsOrder (graph : Graph) (order : List NodeId) : Prop where
  legal : graph.ReadyOrder [] order
  mem_iff : ∀ id, id ∈ order ↔ graph.hasNode id

variable {graph : Graph}

theorem Ascends.acyclic {height : NodeId → Nat} (ascends : graph.Ascends height) : graph.Acyclic := by
  have higher {first last : NodeId} (path : Relation.TransGen graph.Feeds first last) : height first < height last := by
    induction path with
    | single feeds => exact ascends _ _ feeds
    | tail _ feeds ih => exact Nat.lt_trans ih (ascends _ _ feeds)
  intro id path
  exact Nat.lt_irrefl _ (higher path)

/-! ## From an order to heights -/

theorem ReadyOrder.idxOf_lt {placed order : List NodeId} (legal : graph.ReadyOrder placed order) {edge : Edge}
    (member : edge ∈ graph.edgeList) (consumer : edge.target.node ∈ order) (waits : edge.source.node ∉ placed) :
    order.idxOf edge.source.node < order.idxOf edge.target.node := by
  induction order generalizing placed with
  | nil => cases consumer
  | cons id order ih =>
    obtain ⟨fresh, ready, legal⟩ := legal
    by_cases last : edge.target.node = id
    · exact absurd (ready edge member last) waits
    · have later := (List.mem_cons.mp consumer).resolve_left last
      rw [List.idxOf_cons_ne order (Ne.symm last)]
      by_cases first : edge.source.node = id
      · rw [first, List.idxOf_cons_self]
        exact Nat.succ_pos _
      · rw [List.idxOf_cons_ne order (Ne.symm first)]
        have waits : edge.source.node ∉ id :: placed := by simp [first, waits]
        exact Nat.succ_lt_succ (ih legal later waits)

theorem IsOrder.ascends {order : List NodeId} (ordered : graph.IsOrder order) (wf : graph.WellFormed) :
    graph.Ascends order.idxOf := by
  intro producer consumer feeds
  have present := (ordered.mem_iff consumer).mpr (wf.hasNode_of_feeds feeds).2
  obtain ⟨edge, member, source, target⟩ := feeds
  subst source target
  exact ordered.legal.idxOf_lt member present List.not_mem_nil

/-! ## From acyclicity to an order -/

theorem FollowsCircle.feeds {producer consumer : NodeId} (follows : graph.FollowsCircle producer)
    (feeds : graph.Feeds producer consumer) : graph.FollowsCircle consumer := by
  obtain ⟨first, circle, path⟩ := follows
  exact ⟨first, circle, path.tail feeds⟩

/-- A graph is finite, so walking backwards from a node that follows no circle comes to an end. -/
theorem acc_of_not_followsCircle (wf : graph.WellFormed) {id : NodeId} (apart : ¬ graph.FollowsCircle id) :
    Acc graph.Feeds id := by
  have strict : IsStrictOrder NodeId fun before after =>
      Relation.TransGen graph.Feeds before after ∧ ¬ graph.FollowsCircle after :=
    { irrefl := fun id ⟨circle, apart⟩ => apart ⟨id, circle, .refl⟩
      trans := fun _ _ _ first second => ⟨first.1.trans second.1, second.2⟩ }
  have finite : {id | id ∈ graph.nodes.keys}.Finite := List.finite_toSet _
  have founded := finite.wellFoundedOn (r := fun before after =>
    Relation.TransGen graph.Feeds before after ∧ ¬ graph.FollowsCircle after)
  have present {id : NodeId} (known : graph.hasNode id) : id ∈ {id | id ∈ graph.nodes.keys} :=
    ExtTreeMap.mem_keys.mpr known
  have earlier {producer consumer : NodeId} (feeds : graph.Feeds producer consumer)
      (apart : ¬ graph.FollowsCircle consumer) : ¬ graph.FollowsCircle producer :=
    fun follows => apart (follows.feeds feeds)
  have accessible : ∀ id, graph.hasNode id → ¬ graph.FollowsCircle id → Acc graph.Feeds id := by
    intro id known
    apply founded.induction (present known)
    intro id _ ih apart
    refine .intro id fun producer feeds => ?_
    exact ih producer (present (wf.hasNode_of_feeds feeds).1) ⟨.single feeds, apart⟩ (earlier feeds apart)
  exact .intro id fun producer feeds => accessible producer (wf.hasNode_of_feeds feeds).1 (earlier feeds apart)

theorem Acyclic.not_followsCircle (acyclic : graph.Acyclic) (id : NodeId) : ¬ graph.FollowsCircle id :=
  fun ⟨first, circle, _⟩ => acyclic first circle

theorem Acyclic.wellFounded (acyclic : graph.Acyclic) (wf : graph.WellFormed) : WellFounded graph.Feeds :=
  ⟨fun id => acc_of_not_followsCircle wf (acyclic.not_followsCircle id)⟩

namespace Sorting

variable {placed : List NodeId} {sorting : Sorting} (stands : sorting.Stands graph placed)
include stands

theorem Stands.heldBy_ne_nil (stuck : sorting.stack = []) {id : NodeId} (present : graph.hasNode id)
    (waits : id ∉ placed) : graph.heldBy placed id ≠ [] := by
  intro free
  have member := (stands.mem_stack id).mpr ⟨present, waits, free⟩
  rw [stuck] at member
  cases member

/-- Where the stack is empty, each node that waits is fed by another one that waits. -/
theorem Stands.exists_holding (stuck : sorting.stack = []) {id : NodeId} (present : graph.hasNode id)
    (waits : id ∉ placed) : ∃ producer, graph.Feeds producer id ∧ producer ∉ placed := by
  obtain ⟨edge, held⟩ := List.exists_mem_of_ne_nil _ (stands.heldBy_ne_nil stuck present waits)
  simp only [heldBy, List.mem_filter, Bool.and_eq_true, beq_iff_eq, Bool.not_eq_true', List.contains_eq_mem,
    decide_eq_false_iff_not] at held
  obtain ⟨member, target, source⟩ := held
  exact ⟨edge.source.node, ⟨edge, member, rfl, target⟩, source⟩

/-- Walking back through nodes that wait never ends, so it comes from a circle. -/
theorem Stands.followsCircle (wf : graph.WellFormed) (stuck : sorting.stack = []) {id : NodeId}
    (present : graph.hasNode id) (waits : id ∉ placed) : graph.FollowsCircle id := by
  by_contra apart
  induction acc_of_not_followsCircle wf apart with
  | intro id _ ih =>
    obtain ⟨producer, feeds, source⟩ := stands.exists_holding stuck present waits
    exact ih producer feeds (wf.hasNode_of_feeds feeds).1 source fun follows => apart (follows.feeds feeds)

end Sorting

theorem Acyclic.length_place (acyclic : graph.Acyclic) (wf : graph.WellFormed) {placed : List NodeId}
    {sorting : Sorting} (stands : sorting.Stands graph placed) {count : Nat}
    (enough : placed.length + count ≤ graph.nodeCount) : (graph.place count sorting).1.length = count := by
  induction count generalizing placed sorting with
  | zero => rfl
  | succ count ih =>
    have unplaced : ∃ id ∈ graph.nodes.keys, id ∉ placed := by
      by_contra all
      have inside : graph.nodes.keys ⊆ placed := fun id member => not_not.mp fun waits => all ⟨id, member, waits⟩
      have size := (List.subperm_of_subset ExtTreeMap.nodup_keys inside).length_le
      rw [ExtTreeMap.length_keys, ← nodeCount] at size
      omega
    obtain ⟨id, member, waits⟩ := unplaced
    cases top : sorting.stack with
    | nil =>
      have follows := stands.followsCircle wf top (ExtTreeMap.mem_keys.mp member) waits
      exact absurd follows (acyclic.not_followsCircle id)
    | cons first stack =>
      have placedAll := ih (stands.releaseAll wf top) (by rw [List.length_cons]; omega)
      simp only [place, top, List.length_cons, placedAll]

theorem topologicalOrder_isOrder (wf : graph.WellFormed) {order : List NodeId}
    (found : graph.topologicalOrder = .ok order) : graph.IsOrder order := by
  obtain ⟨legal, members⟩ := topologicalOrder_eq_ok wf found
  exact ⟨legal, members⟩

theorem exists_topologicalOrder_iff (wf : graph.WellFormed) :
    (∃ order, graph.topologicalOrder = .ok order) ↔ graph.Acyclic := by
  constructor
  · intro ⟨order, found⟩
    exact ((topologicalOrder_isOrder wf found).ascends wf).acyclic
  · intro acyclic
    have whole : ([] : List NodeId).length + graph.nodeCount ≤ graph.nodeCount := by simp
    have complete := acyclic.length_place wf (Sorting.stands_start graph) whole
    exact ⟨_, if_pos complete⟩

/-- Heights are one more way to say that there is no circle. -/
theorem acyclic_iff_ascends (wf : graph.WellFormed) : graph.Acyclic ↔ ∃ height, graph.Ascends height := by
  constructor
  · intro acyclic
    obtain ⟨order, found⟩ := (exists_topologicalOrder_iff wf).mpr acyclic
    exact ⟨order.idxOf, (topologicalOrder_isOrder wf found).ascends wf⟩
  · intro ⟨height, ascends⟩
    exact ascends.acyclic

end OpGraph.Graph
