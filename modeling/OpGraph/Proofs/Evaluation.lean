import OpGraph.Inference.Basic
import OpGraph.Proofs.Acyclicity
import OpGraph.Proofs.Edits
import OpGraph.Proofs.Producers

/-! Evaluation without an order. The table that evaluation gives is the one table that satisfies the rules
of all nodes; the order in which they were evaluated leaves no trace in it. Passes are shown to
preserve values by solving the rules of the new graph, not by following a new order. -/

namespace OpGraph

namespace Inference

theorem input_eq_ok {graph : Graph} {known : Known} {node : Node} {port : UInt64} {data : Inferred} :
    input graph known node port = .ok data ↔
      ∃ source, graph.producer? ⟨node.id, port⟩ = some source ∧ known[source]? = some data := by
  unfold input
  cases graph.producer? ⟨node.id, port⟩ with
  | none => simp
  | some source => cases found : known[source]? <;> simp [found]

structure Transfers (graph other : Graph) (known otherKnown : Known) (node : Node) : Prop where
  inputs : ∀ {port source data}, graph.producer? ⟨node.id, port⟩ = some source → known[source]? = some data →
    ∃ moved, other.producer? ⟨node.id, port⟩ = some moved ∧ otherKnown[moved]? = some data
  unconnected : graph.producer? ⟨node.id, 1⟩ = none → other.producer? ⟨node.id, 1⟩ = none

namespace Transfers

variable {graph other : Graph} {known otherKnown : Known} {node : Node} {inferred : Inferred}

theorem input (transfers : Transfers graph other known otherKnown node) {port : UInt64}
    (holds : Inference.input graph known node port = .ok inferred) :
    Inference.input other otherKnown node port = .ok inferred := by
  obtain ⟨source, fed, found⟩ := input_eq_ok.mp holds
  exact input_eq_ok.mpr (transfers.inputs fed found)

theorem squeeze (transfers : Transfers graph other known otherKnown node)
    (holds : Inference.squeeze graph known node = .ok inferred) :
    Inference.squeeze other otherKnown node = .ok inferred := by
  obtain ⟨data, first, rest⟩ := bind_eq_ok.mp holds
  apply bind_eq_ok.mpr
  refine ⟨data, transfers.input first, ?_⟩
  rw [Graph.isSome_inEdge?] at rest ⊢
  cases axes : graph.producer? ⟨node.id, 1⟩ with
  | none =>
    rw [axes] at rest
    rw [transfers.unconnected axes]
    exact rest
  | some source =>
    rw [axes] at rest
    obtain ⟨second, read, rest⟩ := bind_eq_ok.mp rest
    have moved := transfers.input read
    obtain ⟨target, fed, _⟩ := input_eq_ok.mp moved
    rw [fed]
    exact bind_eq_ok.mpr ⟨second, moved, rest⟩

/-- The rule of a node depends on nothing but what is known about its inputs. -/
theorem inferNode (transfers : Transfers graph other known otherKnown node)
    (holds : Inference.inferNode graph known node = .ok inferred) :
    Inference.inferNode other otherKnown node = .ok inferred := by
  unfold Inference.inferNode at holds ⊢
  cases kind : node.kind with
  | parameter | const | other => simpa only [kind] using holds
  | result =>
    simp only [kind] at holds
    exact transfers.input holds
  | shapeOf | rank =>
    simp only [kind] at holds
    obtain ⟨data, read, rest⟩ := bind_eq_ok.mp holds
    exact bind_eq_ok.mpr ⟨data, transfers.input read, rest⟩
  | squeeze =>
    simp only [kind] at holds
    exact transfers.squeeze holds

end Transfers
end Inference

namespace Graph
open Inference

/-- A table that gives output 0 of the placed nodes, and nothing else, what their rules give from it. -/
structure Evaluates (graph : Graph) (placed : NodeId → Prop) (known : Known) : Prop where
  support : ∀ {port : Port} {inferred}, known[port]? = some inferred → placed port.node ∧ port.index = 0
  rule : ∀ {id node}, placed id → graph.node? id = some node →
    ∃ inferred, known[(⟨id, 0⟩ : Port)]? = some inferred ∧ inferNode graph known node = .ok inferred

abbrev Solves (graph : Graph) (known : Known) : Prop := graph.Evaluates (fun id => graph.hasNode id) known

theorem evaluates_empty (graph : Graph) : graph.Evaluates (· ∈ []) ∅ := by
  constructor
  · intro port inferred found
    simp at found
  · intro id node impossible
    cases impossible

/-- What is inferred for a new node is not yet in the table, so nothing is overwritten. -/
theorem Evaluates.getElem?_insert {graph : Graph} {placed : List NodeId} {known : Known} {id : NodeId}
    (evaluates : graph.Evaluates (· ∈ placed) known) (fresh : id ∉ placed) (inferred : Inferred) {port : Port}
    {data : Inferred} (stored : known[port]? = some data) : (known.insert ⟨id, 0⟩ inferred)[port]? = some data := by
  rw [Std.ExtTreeMap.getElem?_insert, if_neg, stored]
  intro same
  have output := Std.compare_eq_iff_eq.mp same
  subst output
  exact fresh (evaluates.support stored).1

/-- A table only grows, so what was inferred from a part of it still is. -/
theorem Evaluates.step {graph : Graph} {placed : List NodeId} {known after : Known} {id : NodeId}
    (evaluates : graph.Evaluates (· ∈ placed) known) (fresh : id ∉ placed)
    (present : graph.hasNode id) (ran : Inference.step graph known id = .ok after) :
    graph.Evaluates (· ∈ id :: placed) after := by
  obtain ⟨node, found⟩ := exists_node?_of_hasNode present
  simp only [Inference.step, found] at ran
  obtain ⟨inferred, holds, same⟩ := bind_eq_ok.mp ran
  cases same
  have grows {port : Port} {data : Inferred} (stored : known[port]? = some data) :=
    evaluates.getElem?_insert fresh inferred stored
  have transfers (node : Node) : Transfers graph graph known (known.insert ⟨id, 0⟩ inferred) node :=
    ⟨fun fed stored => ⟨_, fed, grows stored⟩, fun unconnected => unconnected⟩
  constructor
  · intro port data stored
    rw [Std.ExtTreeMap.getElem?_insert] at stored
    split at stored
    next same =>
      rw [← Std.compare_eq_iff_eq.mp same]
      exact ⟨by simp, rfl⟩
    next =>
      obtain ⟨inside, index⟩ := evaluates.support stored
      exact ⟨by simp [inside], index⟩
  · intro other otherNode member known
    rcases List.mem_cons.mp member with same | earlier
    · subst same
      rw [found] at known
      cases known
      exact ⟨inferred, by simp, (transfers node).inferNode holds⟩
    · obtain ⟨data, stored, holds⟩ := evaluates.rule earlier known
      exact ⟨data, grows stored, (transfers otherNode).inferNode holds⟩

theorem Evaluates.run {graph : Graph} {placed order : List NodeId} {known after : Known}
    (evaluates : graph.Evaluates (· ∈ placed) known) (legal : graph.ReadyOrder placed order)
    (present : ∀ id ∈ order, graph.hasNode id) (ran : order.foldlM (Inference.step graph) known = .ok after) :
    ∃ all : List NodeId, (∀ id, id ∈ all ↔ id ∈ placed ∨ id ∈ order) ∧ graph.Evaluates (· ∈ all) after := by
  induction order generalizing placed known with
  | nil =>
    cases ran
    exact ⟨placed, by simp, evaluates⟩
  | cons id order ih =>
    obtain ⟨fresh, _, legal⟩ := legal
    rw [List.foldlM_cons] at ran
    obtain ⟨middle, first, rest⟩ := bind_eq_ok.mp ran
    have advanced := evaluates.step fresh (present id (by simp)) first
    obtain ⟨all, members, whole⟩ := ih advanced legal (fun other member => present other (by simp [member])) rest
    refine ⟨all, fun other => ?_, whole⟩
    rw [members, List.mem_cons, List.mem_cons, or_left_comm, or_assoc]

/-- The entry of one more node makes a part of a solution a larger part of it. -/
theorem Solves.getElem?_insert {graph : Graph} {known part : Known} (solves : graph.Solves known)
    {placed : List NodeId} (agrees : ∀ port : Port, part[port]? = if port.node ∈ placed then known[port]? else none)
    {id : NodeId} {inferred : Inferred} (stored : known[(⟨id, 0⟩ : Port)]? = some inferred) (port : Port) :
    (part.insert ⟨id, 0⟩ inferred)[port]? = if port.node ∈ id :: placed then known[port]? else none := by
  rw [Std.ExtTreeMap.getElem?_insert, agrees]
  by_cases output : port = ⟨id, 0⟩
  · rw [output, if_pos (Std.compare_eq_iff_eq.mpr rfl), if_pos (by simp), stored]
  · rw [if_neg fun same => output (Std.compare_eq_iff_eq.mp same).symm]
    by_cases here : port.node = id
    · have unknown : known[port]? = none := by
        cases value : known[port]? with
        | none => rfl
        | some data => exact absurd (Port.ext here (solves.support value).2) output
      simp [here, unknown]
    · simp [here]

/-- Whoever follows a legal order computes a given solution piece by piece. -/
theorem Solves.follow {graph : Graph} {known : Known} (solves : graph.Solves known) (wf : graph.WellFormed)
    {placed order : List NodeId} (legal : graph.ReadyOrder placed order) (present : ∀ id ∈ order, graph.hasNode id)
    {part : Known} (agrees : ∀ port : Port, part[port]? = if port.node ∈ placed then known[port]? else none) :
    ∃ after, order.foldlM (Inference.step graph) part = .ok after ∧
      ∀ port : Port, after[port]? = if port.node ∈ placed ∨ port.node ∈ order then known[port]? else none := by
  induction order generalizing placed part with
  | nil => exact ⟨part, rfl, by simpa using agrees⟩
  | cons id order ih =>
    obtain ⟨_, ready, legal⟩ := legal
    obtain ⟨node, found⟩ := exists_node?_of_hasNode (present id (by simp))
    have own := wf.node_id found
    subst own
    obtain ⟨inferred, stored, holds⟩ := solves.rule (present node.id (by simp)) found
    have transfers : Transfers graph graph known part node := by
      refine ⟨fun {port source data} fed value => ⟨source, fed, ?_⟩, fun unconnected => unconnected⟩
      obtain ⟨edgeId, edge, inside, same, target⟩ := wf.producer?_eq_some_iff.mp fed
      subst same
      have before := ready edge (Graph.mem_edgeList.mpr ⟨edgeId, inside⟩) (by rw [target])
      rw [agrees, if_pos before, value]
    have first : Inference.step graph part node.id = .ok (part.insert ⟨node.id, 0⟩ inferred) := by
      simp only [Inference.step, found]
      exact bind_eq_ok.mpr ⟨inferred, transfers.inferNode holds, rfl⟩
    have advanced := solves.getElem?_insert agrees stored
    obtain ⟨after, ran, final⟩ := ih legal (fun other member => present other (by simp [member])) advanced
    refine ⟨after, ?_, fun port => ?_⟩
    · rw [List.foldlM_cons, first]
      exact ran
    · rw [final]
      simp only [List.mem_cons, or_assoc, or_left_comm]

/-- In whatever order the nodes are evaluated, the outcome is the table that satisfies all rules. -/
theorem IsOrder.foldlM_step_eq_ok_iff {graph : Graph} {order : List NodeId} (ordered : graph.IsOrder order)
    (wf : graph.WellFormed) {known : Known} :
    order.foldlM (Inference.step graph) ∅ = .ok known ↔ graph.Solves known := by
  have present : ∀ id ∈ order, graph.hasNode id := fun id => (ordered.mem_iff id).mp
  constructor
  · intro ran
    obtain ⟨all, placed, evaluates⟩ := graph.evaluates_empty.run ordered.legal present ran
    have whole : (fun id => id ∈ all) = fun id => graph.hasNode id = true := by
      funext id
      simp [placed, ordered.mem_iff]
    rw [Solves, ← whole]
    exact evaluates
  · intro solves
    have start : ∀ port : Port, (∅ : Known)[port]? = if port.node ∈ ([] : List NodeId) then known[port]? else none := by
      simp
    obtain ⟨after, ran, final⟩ := solves.follow wf ordered.legal present start
    refine ran.trans (congrArg _ ?_)
    apply Std.ExtTreeMap.ext_getElem?
    intro port
    rw [final]
    cases value : known[port]? with
    | none => simp
    | some data =>
      have inside := (solves.support value).1
      simp [(ordered.mem_iff port.node).mpr inside]

/-- Evaluation finds the table that satisfies all rules, if the graph has an order and such a table. -/
theorem infer_eq_ok_iff {graph : Graph} (wf : graph.WellFormed) {known : Known} :
    graph.infer = .ok known ↔ (∃ order, graph.topologicalOrder = .ok order) ∧ graph.Solves known := by
  unfold infer
  cases sorted : graph.topologicalOrder with
  | error error => simp
  | ok order =>
    have ordered := topologicalOrder_isOrder wf sorted
    rw [ordered.foldlM_step_eq_ok_iff wf]
    simp

end Graph
end OpGraph
