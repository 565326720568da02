import OpGraph.Container.Basic
import OpGraph.Pass.FrontPhase
import OpGraph.Proofs.Edits
import OpGraph.Proofs.Queries
import OpGraph.Proofs.UnusedIds

/-! Well-formedness over whole histories. Every graph that is read is built by checked insertions, and
every operation keeps well-formedness, also one that is refused half-way; so after any sequence of them
validation finds nothing and the queries answer from the edges. -/

namespace OpGraph
namespace Graph

/-! ## Edits -/

theorem keeps_addNode (node : Node) : Edit.Keeps WellFormed (addNode node) := by
  intro graph wf
  rw [edit_addNode]
  split
  next => exact wf
  next unused => exact wf.withNode unused

theorem keeps_addEdge (edge : Edge) : Edit.Keeps WellFormed (addEdge edge) := by
  intro graph wf
  rw [edit_addEdge]
  split
  · exact wf
  next unused =>
    split
    · exact wf
    next ends =>
      split
      · exact wf
      next free =>
        simp only [Bool.or_eq_true, Bool.not_eq_true', not_or, Bool.not_eq_false] at ends
        refine wf.withEdge ?_ ends.1 ends.2 ?_
        · exact Std.ExtTreeMap.getElem?_eq_none (by simpa using unused)
        · intro id other stored same
          have own := wf.edge_id stored
          have found := wf.inEdge?_eq_some_iff.mpr ⟨own ▸ stored, same⟩
          simp [found] at free

theorem keeps_connect [EdgeIdSupply] (source target : Port) : Edit.Keeps WellFormed (connect source target) := by
  intro graph wf
  rw [edit_connect]
  exact keeps_addEdge _ graph wf

theorem keeps_removeEdge (id : EdgeId) : Edit.Keeps WellFormed (removeEdge id) := by
  intro graph wf
  rw [edit_removeEdge]
  split
  next edge stored =>
    have own := wf.edge_id stored
    exact wf.withoutEdge (own ▸ stored)
  next => exact wf

theorem keeps_removeNode (id : NodeId) : Edit.Keeps WellFormed (removeNode id) := by
  intro graph wf
  rw [edit_removeNode]
  split
  · exact wf.withoutNode id
  · exact wf

theorem keeps_requireNode (id : NodeId) : Edit.Keeps WellFormed (requireNode id) := by
  intro graph wf
  rw [edit_requireNode]
  split <;> exact wf

theorem keeps_setSource [EdgeIdSupply] (old new : Port) : Edit.Keeps WellFormed (setSource old new) := by
  refine .bind (keeps_requireNode _) fun _ => .get_bind fun graph wf => ?_
  exact Edit.Keeps.bind (.forM (fun edge => .bind (.discard (keeps_removeEdge _)) fun _ =>
    .discard (keeps_connect _ _)) _) (fun _ => .pure _) graph wf

theorem keeps_setDestination [EdgeIdSupply] (old new : Port) : Edit.Keeps WellFormed (setDestination old new) := by
  refine .bind (keeps_requireNode _) fun _ => .get_bind fun graph wf => ?_
  split
  · exact wf
  next edge _ =>
    exact Edit.Keeps.bind (.discard (keeps_removeEdge _)) (fun _ => .bind (.discard (keeps_connect _ _))
      fun _ => .pure _) graph wf

private theorem wellFormed_foldl_modifyNode {graph : Graph} (wf : graph.WellFormed) (names : List (NodeId × String)) :
    (names.foldl (fun graph (id, name) =>
      graph.modifyNode id fun node => { node with name := some name }) graph).WellFormed := by
  induction names generalizing graph with
  | nil => exact wf
  | cons entry names ih => exact ih (wf.modifyNode _ _)

theorem keeps_renameNodes (names : List (NodeId × String)) : Edit.Keeps WellFormed (renameNodes names) := by
  refine .bind (.forM (fun _ => keeps_requireNode _) _) fun _ => ?_
  intro graph wf
  exact wellFormed_foldl_modifyNode wf names

theorem keeps_createOp (kind : NodeKind) (name : String) : Edit.Keeps WellFormed (createOp kind name) :=
  .get_bind fun graph wf => keeps_addNode _ graph wf

theorem keeps_createShapeOf (name : String) (outputType : ElementType) :
    Edit.Keeps WellFormed (createShapeOf name outputType) :=
  .get_bind fun graph wf => keeps_addNode _ graph wf

theorem keeps_createConst (name : String) (value : Tensor) : Edit.Keeps WellFormed (createConst name value) :=
  .get_bind fun graph wf => keeps_addNode _ graph wf

theorem keeps_createOpWithConst [EdgeIdSupply] (kind : NodeKind) (value : Tensor) (name : String)
    (first : Option Port) : Edit.Keeps WellFormed (createOpWithConst kind value name first) := by
  refine .bind (keeps_createOp _ _) fun _ => .bind (keeps_createConst _ _) fun _ =>
    .bind (.discard (keeps_connect _ _)) fun _ => ?_
  cases first with
  | none => exact .pure _
  | some source => exact .bind (.discard (keeps_connect _ _)) fun _ => .pure _

theorem keeps_removeDead (id : NodeId) : Edit.Keeps WellFormed (removeDead id) :=
  .get_bind fun graph wf => Edit.Keeps.bind (.discard (keeps_removeNode id)) (fun _ => .pure _) graph wf

theorem keeps_removeDeadNodes : Edit.Keeps WellFormed removeDeadNodes :=
  .get_bind fun graph wf => Edit.Keeps.bind (.mapM keeps_removeDead _) (fun _ => .pure _) graph wf

end Graph

namespace RankDecomposition
open OpGraph.Graph

theorem keeps_requiredNode (id : NodeId) : Edit.Keeps WellFormed (requiredNode id) := by
  refine .get_bind fun graph wf => ?_
  split <;> exact wf

variable [EdgeIdSupply]

theorem keeps_createChain (name : String) (outputType : ElementType) :
    Edit.Keeps WellFormed (createChain name outputType) :=
  .bind (keeps_createShapeOf _ _) fun _ => .bind (keeps_createShapeOf _ _) fun _ =>
    .bind (.discard (keeps_connect _ _)) fun _ => .bind (keeps_createOpWithConst _ _ _ _) fun _ => .pure _

theorem keeps_splice (id shape rank : NodeId) (name : String) :
    Edit.Keeps WellFormed (splice id shape rank name) :=
  .bind (.discard (keeps_setSource _ _)) fun _ => .bind (.discard (keeps_setDestination _ _)) fun _ =>
    .bind (.discard (keeps_removeNode _)) fun _ => keeps_renameNodes _

theorem keeps_insertChain (id : NodeId) (name : String) (outputType : ElementType) :
    Edit.Keeps WellFormed (insertChain id name outputType) :=
  .bind (keeps_createChain _ _) fun _ => .bind (keeps_splice _ _ _ _) fun _ => .pure _

theorem keeps_decompose (id : NodeId) : Edit.Keeps WellFormed (decompose id) := by
  refine .bind (keeps_requiredNode id) fun node => .get_bind fun graph wf => ?_
  exact Edit.Keeps.bind (.lift _) (fun _ => .inPass (keeps_insertChain _ _ _)) graph wf

theorem keeps_replace (id : NodeId) : Edit.Keeps WellFormed (replace id) := by
  refine .get_bind fun graph wf => ?_
  exact Edit.Keeps.bind (.discard (keeps_decompose id)) (fun _ => .pure _) graph wf

theorem keeps_pass : Edit.Keeps WellFormed pass.run := by
  refine .get_bind fun graph wf => ?_
  exact Edit.Keeps.bind (.forM (fun _ => .lift _) _)
    (fun _ => .bind (.mapM (fun _ => keeps_replace _) _) fun _ => .pure _) graph wf

end RankDecomposition

namespace Graph

/-! ## Reading -/

theorem wellFormed_of_ofParts {nodes : List Node} {edges : List Edge} {graph : Graph}
    (read : ofParts nodes edges = .ok graph) : graph.WellFormed := by
  have kept : Edit.Keeps WellFormed (addParts nodes edges) :=
    .bind (.forM (fun _ => .discard (keeps_addNode _)) _) fun _ => .forM (fun _ => .discard (keeps_addEdge _)) _
  have built := kept empty wellFormed_empty
  unfold ofParts at read
  split at read
  next result =>
    cases read
    rwa [result] at built
  next => cases read

theorem wellFormed_of_ofBytes {bytes : Bytes} {graph : Graph} (read : ofBytes bytes = .ok graph) :
    graph.WellFormed := by
  unfold ofBytes at read
  split at read
  · cases read
  · split at read
    · cases read
    · split at read
      · cases read
      next built =>
        split at read
        · cases read
          exact wellFormed_of_ofParts built
        · cases read

theorem wellFormed_of_container {bytes : Bytes} {container : Container}
    (read : Container.ofBytes bytes = .ok container) : container.graph.WellFormed := by
  simp only [Container.ofBytes, bind_eq_ok] at read
  obtain ⟨_, _, _, _, _, _, _, _, _, _, graph, payload, _, _, _, _, same⟩ := read
  cases same
  exact wellFormed_of_ofBytes (mapError_eq_ok.mp payload)

/-! ## Validation -/

private theorem occupiedErrors_eq_nil {edges : List Edge}
    (distinct : edges.Pairwise fun first second => first.target ≠ second.target) : occupiedErrors edges = [] := by
  induction edges with
  | nil => rfl
  | cons first rest ih =>
    obtain ⟨here, later⟩ := List.pairwise_cons.mp distinct
    cases rest with
    | nil => rfl
    | cons second rest => rw [occupiedErrors, if_neg (here second (by simp)), ih later]

theorem WellFormed.validationErrors_eq_nil {graph : Graph} (wf : graph.WellFormed) :
    graph.validationErrors = [] := by
  have dangling : graph.danglingErrors = [] := by
    apply List.filterMap_eq_nil_iff.mpr
    intro edge member
    obtain ⟨id, stored⟩ := Graph.mem_edgeList.mp member
    simp [wf.ends stored]
  have distinct : graph.edgeList.Pairwise fun first second => first.target ≠ second.target := by
    refine wf.nodup_edgeList.imp_of_mem ?_
    intro first second member other different same
    have stored := wf.mem_edgeList.mp member
    have known := wf.mem_edgeList.mp other
    have ids := wf.target_unique stored known same
    rw [ids, known] at stored
    exact different (Option.some.inj stored).symm
  have sorted := (List.mergeSort_perm graph.edgeList Edge.targetFirst).pairwise_iff
    (R := fun first second => first.target ≠ second.target) (fun different => different.symm)
  rw [validationErrors, dangling, occupiedErrors_eq_nil (sorted.mpr distinct), List.append_nil]

structure AnswersFromEdges (graph : Graph) : Prop where
  inEdge : ∀ port edge, graph.inEdge? port = some edge ↔ graph.edge? edge.id = some edge ∧ edge.target = port
  producer : ∀ source target, graph.producer? target = some source ↔ graph.Joins source target
  outEdges : ∀ port edge, edge ∈ graph.outEdges port ↔ graph.edge? edge.id = some edge ∧ edge.source = port
  outEdges_once : ∀ port, (graph.outEdges port).Nodup
  connectedInputs : ∀ id index, index ∈ graph.connectedInputs id ↔ ∃ source, graph.Joins source ⟨id, index⟩
  connectedInputs_ascending : ∀ id, (graph.connectedInputs id).Pairwise (· < ·)

theorem WellFormed.answersFromEdges {graph : Graph} (wf : graph.WellFormed) : graph.AnswersFromEdges where
  inEdge _ _ := wf.inEdge?_eq_some_iff
  producer _ _ := wf.producer?_eq_some_iff
  outEdges _ _ := wf.mem_outEdges
  outEdges_once := wf.nodup_outEdges
  connectedInputs _ _ := wf.mem_connectedInputs
  connectedInputs_ascending := wf.connectedInputs_ascending

/-! ## Histories -/

/-- Where a history can start: nothing, or a graph read from a text or a container. -/
inductive Origin : Graph → Prop where
  | empty : Origin empty
  | text {bytes graph} (read : ofBytes bytes = .ok graph) : Origin graph
  | container {bytes container} (read : Container.ofBytes bytes = .ok container) : Origin container.graph

inductive Operation where
  | addNode (node : Node)
  | addEdge (edge : Edge)
  | connect (source target : Port)
  | removeEdge (id : EdgeId)
  | removeNode (id : NodeId)
  | setSource (old new : Port)
  | setDestination (old new : Port)
  | renameNodes (names : List (NodeId × String))
  | modifyNode (id : NodeId) (change : Node → Node)
  | createOp (kind : NodeKind) (name : String)
  | createShapeOf (name : String) (outputType : ElementType)
  | createConst (name : String) (value : Tensor)
  | createOpWithConst (kind : NodeKind) (value : Tensor) (name : String) (first : Option Port)
  | replaceRank (id : NodeId)
  | replaceRanks
  | removeDeadNodes
  | reload
  | reloadContainer

/-- The graph that a call leaves behind, also where it is refused. A refused reload changes nothing. -/
def Operation.apply [EdgeIdSupply] (graph : Graph) : Operation → Graph
  | addNode node => (graph.edit (Graph.addNode node)).2
  | addEdge edge => (graph.edit (Graph.addEdge edge)).2
  | connect source target => (graph.edit (Graph.connect source target)).2
  | removeEdge id => (graph.edit (Graph.removeEdge id)).2
  | removeNode id => (graph.edit (Graph.removeNode id)).2
  | setSource old new => (graph.edit (Graph.setSource old new)).2
  | setDestination old new => (graph.edit (Graph.setDestination old new)).2
  | renameNodes names => (graph.edit (Graph.renameNodes names)).2
  | modifyNode id change => graph.modifyNode id change
  | createOp kind name => (graph.edit (Graph.createOp kind name)).2
  | createShapeOf name outputType => (graph.edit (Graph.createShapeOf name outputType)).2
  | createConst name value => (graph.edit (Graph.createConst name value)).2
  | createOpWithConst kind value name first => (graph.edit (Graph.createOpWithConst kind value name first)).2
  | replaceRank id => (graph.edit (RankDecomposition.replace id)).2
  | replaceRanks => (graph.edit RankDecomposition.pass.run).2
  | removeDeadNodes => (graph.edit Graph.removeDeadNodes).2
  | reload => (ofBytes (Utf8.encode graph.toJson.compact)).toOption.getD graph
  | reloadContainer =>
    ((Container.ofBytes (Container.ofGraph graph).toBytes).toOption.map Container.graph).getD graph

def history [EdgeIdSupply] (graph : Graph) (operations : List Operation) : Graph :=
  operations.foldl Operation.apply graph

theorem Origin.wellFormed {graph : Graph} (origin : Origin graph) : graph.WellFormed := by
  cases origin with
  | empty => exact wellFormed_empty
  | text read => exact wellFormed_of_ofBytes read
  | container read => exact wellFormed_of_container read

theorem WellFormed.apply [EdgeIdSupply] {graph : Graph} (wf : graph.WellFormed) (operation : Operation) :
    (operation.apply graph).WellFormed := by
  cases operation with
  | addNode node => exact keeps_addNode node graph wf
  | addEdge edge => exact keeps_addEdge edge graph wf
  | connect source target => exact keeps_connect source target graph wf
  | removeEdge id => exact keeps_removeEdge id graph wf
  | removeNode id => exact keeps_removeNode id graph wf
  | setSource old new => exact keeps_setSource old new graph wf
  | setDestination old new => exact keeps_setDestination old new graph wf
  | renameNodes names => exact keeps_renameNodes names graph wf
  | modifyNode id change => exact wf.modifyNode id change
  | createOp kind name => exact keeps_createOp kind name graph wf
  | createShapeOf name outputType => exact keeps_createShapeOf name outputType graph wf
  | createConst name value => exact keeps_createConst name value graph wf
  | createOpWithConst kind value name first => exact keeps_createOpWithConst kind value name first graph wf
  | replaceRank id => exact RankDecomposition.keeps_replace id graph wf
  | replaceRanks => exact RankDecomposition.keeps_pass graph wf
  | removeDeadNodes => exact keeps_removeDeadNodes graph wf
  | reload =>
    unfold Operation.apply
    cases read : ofBytes (Utf8.encode graph.toJson.compact) with
    | ok reread => exact wellFormed_of_ofBytes read
    | error error => exact wf
  | reloadContainer =>
    unfold Operation.apply
    cases read : Container.ofBytes (Container.ofGraph graph).toBytes with
    | ok container => exact wellFormed_of_container read
    | error error => exact wf

theorem WellFormed.history [EdgeIdSupply] {graph : Graph} (wf : graph.WellFormed) (operations : List Operation) :
    (graph.history operations).WellFormed := by
  induction operations generalizing graph with
  | nil => exact wf
  | cons operation operations ih => exact ih (wf.apply operation)

/-- Whatever is done to a graph that was read or built from nothing, it stays well-formed: it passes
validation, and the queries answer from its edges. -/
theorem wellFormed_history [EdgeIdSupply] {graph : Graph} (origin : Origin graph) (operations : List Operation) :
    (graph.history operations).WellFormed ∧ (graph.history operations).validationErrors = [] ∧
      (graph.history operations).AnswersFromEdges := by
  have wf := origin.wellFormed.history operations
  exact ⟨wf, wf.validationErrors_eq_nil, wf.answersFromEdges⟩

/-- A rank between a parameter and a result is decomposed after a refused call. -/
theorem wellFormed_history_rank : Origin empty ∧
    (let graph := empty.history
      [.addNode (.parameter "x" none), .addNode { id := "r", kind := .rank, outputType := some .i64 },
        .addNode (.result "z"), .connect ⟨"x", 0⟩ ⟨"r", 0⟩, .connect ⟨"r", 0⟩ ⟨"z", 0⟩,
        .setDestination ⟨"r", 0⟩ ⟨"absent", 0⟩, .replaceRanks]
    (graph.WellFormed ∧ graph.validationErrors = [] ∧ graph.AnswersFromEdges) ∧
      graph.nodeCount = 6 ∧ graph.edgeCount = 5) := by
  refine ⟨.empty, wellFormed_history .empty _, ?_, ?_⟩
  · decide +kernel
  · decide +kernel

end Graph
end OpGraph
