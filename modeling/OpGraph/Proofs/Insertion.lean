import OpGraph.Pass.Insertion
import OpGraph.Proofs.Producers

/-! Operations that passes insert get ids of their own, so they neither replace a node nor change what
feeds the ports of the graph they are inserted into. -/

namespace OpGraph.Graph

/-- The second graph has the nodes of the first, the added ones under unused ids, and the given producers. -/
structure Extends (before after : Graph) (added : List Node) (producer : Port → Option Port) : Prop where
  wellFormed : after.WellFormed
  nodup : (added.map Node.id).Nodup
  fresh : ∀ node ∈ added, ¬ before.hasNode node.id
  node? : ∀ id, after.node? id = (added.find? fun node => node.id == id).or (before.node? id)
  producer? : ∀ port, after.producer? port = producer port

namespace Extends

variable {before middle after : Graph} {added more : List Node} {producer other : Port → Option Port}

theorem hasNode (extended : Extends before after added producer) {id : NodeId} (present : before.hasNode id) :
    after.hasNode id := by
  obtain ⟨node, found⟩ := exists_node?_of_hasNode present
  rw [hasNode_eq_isSome, extended.node?, found]
  cases added.find? fun node => node.id == id <;> rfl

theorem node?_added (extended : Extends before after added producer) {node : Node} (member : node ∈ added) :
    after.node? node.id = some node := by
  have found : (added.find? fun other => other.id == node.id) = some node := by
    cases known : added.find? fun other => other.id == node.id with
    | none => exact absurd (beq_self_eq_true node.id) (List.find?_eq_none.mp known node member)
    | some other =>
      have same : (other.id == node.id) = true := by simpa using List.find?_some known
      rw [List.inj_on_of_nodup_map extended.nodup (List.mem_of_find?_eq_some known) member (beq_iff_eq.mp same)]
  rw [extended.node?, found, Option.some_or]

theorem hasNode_added (extended : Extends before after added producer) {node : Node} (member : node ∈ added) :
    after.hasNode node.id :=
  hasNode_of_node? (extended.node?_added member)

theorem hasNode_iff (extended : Extends before after added producer) (id : NodeId) :
    after.hasNode id ↔ before.hasNode id ∨ id ∈ added.map Node.id := by
  rw [hasNode_eq_isSome, extended.node?, Option.isSome_or, Bool.or_eq_true, List.find?_isSome,
    ← hasNode_eq_isSome, or_comm]
  simp

theorem not_mem_ids (extended : Extends before after added producer) {id : NodeId} (present : before.hasNode id) :
    id ∉ added.map Node.id := by
  intro member
  obtain ⟨node, inside, rfl⟩ := List.mem_map.mp member
  exact extended.fresh node inside present

theorem node?_of_hasNode (extended : Extends before after added producer) {id : NodeId}
    (present : before.hasNode id) : after.node? id = before.node? id := by
  have absent : (added.find? fun node => node.id == id) = none := by
    rw [List.find?_eq_none]
    intro node member same
    exact extended.not_mem_ids present (List.mem_map.mpr ⟨node, member, beq_iff_eq.mp same⟩)
  rw [extended.node?, absent, Option.none_or]

theorem trans (first : Extends before middle added producer) (second : Extends middle after more other) :
    Extends before after (more ++ added) other := by
  refine ⟨second.wellFormed, ?_, ?_, ?_, second.producer?⟩
  · rw [List.map_append, List.nodup_append]
    refine ⟨second.nodup, first.nodup, ?_⟩
    intro id member same inside equal
    subst equal
    obtain ⟨old, known, rfl⟩ := List.mem_map.mp inside
    exact second.not_mem_ids (first.hasNode_added known) member
  · intro node member present
    rcases List.mem_append.mp member with later | earlier
    · exact second.fresh node later (first.hasNode present)
    · exact first.fresh node earlier present
  · intro id
    rw [second.node?, first.node?, List.find?_append, Option.or_assoc]

theorem rewired (first : Extends before middle added producer) (second : Rewired middle after other) :
    Extends before after added other :=
  ⟨second.wellFormed, first.nodup, first.fresh, fun id => (second.node? id).trans (first.node? id), second.producer?⟩

end Extends

namespace WellFormed

variable {graph : Graph}

theorem extends_withNode (wf : graph.WellFormed) {node : Node} (unused : ¬ graph.hasNode node.id) :
    Extends graph (graph.withNode node) [node] graph.producer? := by
  refine ⟨wf.withNode unused, by simp, by simpa using unused, ?_, wf.producer?_withNode unused⟩
  intro id
  rw [node?_withNode, List.find?_singleton]
  by_cases same : node.id = id <;> simp [same]

end WellFormed

theorem edit_addNode_unused {graph : Graph} {node : Node} (unused : ¬ graph.hasNode node.id) :
    graph.edit (addNode node) = (.ok node.id, graph.withNode node) := by
  rw [edit_addNode, if_neg unused]

theorem edit_createOp (graph : Graph) (kind : NodeKind) (name : String) :
    graph.edit (createOp kind name) =
      (.ok (graph.uniqueId name), graph.withNode { id := graph.uniqueId name, kind, name := some name }) := by
  rw [createOp, edit_bind_ok (edit_get graph), edit_addNode_unused (graph.not_hasNode_uniqueId name)]

theorem edit_createShapeOf (graph : Graph) (name : String) (outputType : ElementType) :
    graph.edit (createShapeOf name outputType) =
      (.ok (graph.uniqueId name), graph.withNode
        { id := graph.uniqueId name, kind := .shapeOf, name := some name, outputType := some outputType }) := by
  rw [createShapeOf, edit_bind_ok (edit_get graph)]
  exact edit_addNode_unused (graph.not_hasNode_uniqueId name)

theorem edit_createConst (graph : Graph) (name : String) (value : Tensor) :
    graph.edit (createConst name value) =
      (.ok (graph.uniqueId name),
        graph.withNode { Node.const (graph.uniqueId name) value with name := some name }) := by
  rw [createConst, edit_bind_ok (edit_get graph)]
  exact edit_addNode_unused (graph.not_hasNode_uniqueId name)

def newOp (graph : Graph) (kind : NodeKind) (name : String) : Node :=
  { id := graph.uniqueId name, kind, name := some name }

def newConst (graph : Graph) (kind : NodeKind) (value : Tensor) (name : String) : Node :=
  { Node.const ((graph.withNode (graph.newOp kind name)).uniqueId s!"{name}/axis") value with
    name := some s!"{name}/axis" }

/-- The graph with an operation that reads a constant on port 1, and nothing on port 0 yet. -/
def withOpAndConst [EdgeIdSupply] (graph : Graph) (kind : NodeKind) (value : Tensor) (name : String) : Graph :=
  ((graph.withNode (graph.newOp kind name)).withNode (graph.newConst kind value name)).join
    ⟨(graph.newConst kind value name).id, 0⟩ ⟨(graph.newOp kind name).id, 1⟩

namespace WellFormed

variable {graph : Graph}

theorem extends_twoNodes (wf : graph.WellFormed) (kind : NodeKind) (value : Tensor) (name : String) :
    Extends graph ((graph.withNode (graph.newOp kind name)).withNode (graph.newConst kind value name))
      [graph.newConst kind value name, graph.newOp kind name] graph.producer? := by
  have first : Extends graph (graph.withNode (graph.newOp kind name)) [graph.newOp kind name] graph.producer? :=
    wf.extends_withNode (graph.not_hasNode_uniqueId name)
  have unused : ¬ (graph.withNode (graph.newOp kind name)).hasNode (graph.newConst kind value name).id :=
    (graph.withNode (graph.newOp kind name)).not_hasNode_uniqueId s!"{name}/axis"
  have both := first.trans (first.wellFormed.extends_withNode unused)
  exact ⟨both.wellFormed, both.nodup, both.fresh, both.node?,
    fun port => (both.producer? port).trans (first.producer? port)⟩

theorem producer?_newOp (wf : graph.WellFormed) (kind : NodeKind) (name : String) (index : UInt64) :
    graph.producer? ⟨(graph.newOp kind name).id, index⟩ = none :=
  wf.producer?_eq_none (graph.not_hasNode_uniqueId name)

/-- The two nodes are there, and the port that they are joined by is free. -/
theorem joinable_twoNodes (wf : graph.WellFormed) (kind : NodeKind) (value : Tensor) (name : String) :
    let withBoth := (graph.withNode (graph.newOp kind name)).withNode (graph.newConst kind value name)
    withBoth.hasNode (Port.mk (graph.newConst kind value name).id 0).node ∧
      withBoth.hasNode (Port.mk (graph.newOp kind name).id 1).node ∧
      withBoth.producer? ⟨(graph.newOp kind name).id, 1⟩ = none := by
  have both := wf.extends_twoNodes kind value name
  exact ⟨both.hasNode_added (by simp), both.hasNode_added (by simp),
    (both.producer? _).trans (wf.producer?_newOp kind name 1)⟩

variable [EdgeIdSupply]

theorem extends_withOpAndConst (wf : graph.WellFormed) (kind : NodeKind) (value : Tensor) (name : String) :
    Extends graph (graph.withOpAndConst kind value name) [graph.newConst kind value name, graph.newOp kind name]
      fun port => if port = ⟨(graph.newOp kind name).id, 1⟩ then some ⟨(graph.newConst kind value name).id, 0⟩
        else graph.producer? port := by
  have both := wf.extends_twoNodes kind value name
  obtain ⟨constPresent, opPresent, vacant⟩ := wf.joinable_twoNodes kind value name
  have joined := both.wellFormed.rewired_join constPresent opPresent vacant
  refine both.rewired ⟨joined.wellFormed, joined.node?, fun port => (joined.producer? port).trans ?_⟩
  rw [both.producer?]

/-- Whatever is to be on port 0, the operation and its constant are there before it is looked at. -/
theorem edit_opAndConst_bind (wf : graph.WellFormed) (kind : NodeKind) (value : Tensor) (name : String) {α : Type}
    (rest : NodeId → Edit GraphError α) :
    graph.edit (do
        let op ← createOp kind name
        let const ← createConst s!"{name}/axis" value
        discard <| connect ⟨const, 0⟩ ⟨op, 1⟩
        rest op) = (graph.withOpAndConst kind value name).edit (rest (graph.newOp kind name).id) := by
  obtain ⟨constPresent, opPresent, vacant⟩ := wf.joinable_twoNodes kind value name
  have op : graph.edit (createOp kind name) =
      (.ok (graph.newOp kind name).id, graph.withNode (graph.newOp kind name)) :=
    edit_createOp graph kind name
  have const : (graph.withNode (graph.newOp kind name)).edit (createConst s!"{name}/axis" value) =
      (.ok (graph.newConst kind value name).id,
        (graph.withNode (graph.newOp kind name)).withNode (graph.newConst kind value name)) :=
    edit_createConst _ _ value
  rw [edit_bind_ok op, edit_bind_ok const,
    edit_bind_ok (edit_discard_ok (edit_connect_ok constPresent opPresent vacant))]
  rfl

/-- Port 0 of the operation is there, and nothing feeds it. -/
theorem joinable_newOp (wf : graph.WellFormed) (kind : NodeKind) (value : Tensor) (name : String) :
    (graph.withOpAndConst kind value name).hasNode (graph.newOp kind name).id ∧
      (graph.withOpAndConst kind value name).producer? ⟨(graph.newOp kind name).id, 0⟩ = none := by
  have fed := wf.extends_withOpAndConst kind value name
  refine ⟨fed.hasNode_added (by simp), ?_⟩
  rw [fed.producer?, if_neg (by simp), wf.producer?_newOp]

/-- Only a missing producer is refused on port 0. -/
theorem edit_createOpWithConst_some (wf : graph.WellFormed) (kind : NodeKind) (value : Tensor) (name : String)
    (source : Port) :
    graph.edit (createOpWithConst kind value name (some source)) =
      if (graph.withOpAndConst kind value name).hasNode source.node then
        (.ok (graph.newOp kind name).id,
          (graph.withOpAndConst kind value name).join source ⟨(graph.newOp kind name).id, 0⟩)
      else (.error (.danglingEdge source.node (graph.newOp kind name).id), graph.withOpAndConst kind value name) := by
  obtain ⟨target, free⟩ := wf.joinable_newOp kind value name
  refine (wf.edit_opAndConst_bind kind value name _).trans ?_
  by_cases present : (graph.withOpAndConst kind value name).hasNode source.node
  · rw [if_pos present]
    exact edit_bind_ok (edit_discard_ok (edit_connect_ok present target free)) _
  · rw [if_neg present]
    refine edit_bind_error ?_ _
    rw [edit_discard, edit_connect_eq]
    simp [present, Except.map]

/-- The inserted operation reads the given producer on port 0 and the constant on port 1. -/
theorem edit_createOpWithConst (wf : graph.WellFormed) (kind : NodeKind) (value : Tensor)
    (name : String) {source : Port} (present : graph.hasNode source.node) :
    ∃ op const after, graph.edit (createOpWithConst kind value name (some source)) = (.ok op, after) ∧
      Extends graph after
        [{ Node.const const value with name := some s!"{name}/axis" }, { id := op, kind, name := some name }]
        fun port => if port = ⟨op, 0⟩ then some source else if port = ⟨op, 1⟩ then some ⟨const, 0⟩
          else graph.producer? port := by
  have fed := wf.extends_withOpAndConst kind value name
  obtain ⟨target, free⟩ := wf.joinable_newOp kind value name
  have last := fed.wellFormed.rewired_join (fed.hasNode present) target free
  refine ⟨(graph.newOp kind name).id, (graph.newConst kind value name).id, _, ?_,
    fed.rewired ⟨last.wellFormed, last.node?, ?_⟩⟩
  · rw [wf.edit_createOpWithConst_some, if_pos (fed.hasNode present)]
  · intro port
    rw [last.producer?, fed.producer?]

end WellFormed
end OpGraph.Graph
