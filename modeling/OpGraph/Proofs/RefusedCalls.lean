import OpGraph.Proofs.Histories
import OpGraph.Proofs.Insertion

/-! What refused calls leave behind. Most are refused before they change anything. Two join ports after a first part
of their work, and can still be refused then: the producer that was to move to another input is
disconnected by that time, and the operation that was to read it is in the graph. -/

namespace OpGraph

/-- Where the edit is refused, the graph is as it was. -/
def Edit.AllOrNothing {ε α : Type} (graph : Graph) (action : Edit ε α) : Prop :=
  ∀ error after, graph.edit action = (.error error, after) → after = graph

namespace Graph

variable {ε α : Type} {graph : Graph}

theorem allOrNothing_of_ok {action : Edit ε α} {value : α} {last : Graph}
    (ran : graph.edit action = (.ok value, last)) : Edit.AllOrNothing graph action := by
  intro error after refused
  cases ran.symm.trans refused

theorem allOrNothing_discard {action : Edit ε α} (whole : Edit.AllOrNothing graph action) :
    Edit.AllOrNothing graph (discard action) := by
  intro error after refused
  exact whole error after (edit_discard_eq_error.mp refused)

/-! ## Single edits -/

theorem allOrNothing_addNode (node : Node) : Edit.AllOrNothing graph (addNode node) := by
  intro error after refused
  rw [edit_addNode] at refused
  split at refused <;> cases refused
  rfl

theorem allOrNothing_addEdge (edge : Edge) : Edit.AllOrNothing graph (addEdge edge) := by
  intro error after refused
  rw [edit_addEdge] at refused
  repeat' split at refused
  all_goals cases refused
  all_goals rfl

theorem allOrNothing_connect [EdgeIdSupply] (source target : Port) :
    Edit.AllOrNothing graph (connect source target) := by
  intro error after refused
  rw [edit_connect] at refused
  exact allOrNothing_addEdge _ error after refused

theorem allOrNothing_removeEdge (id : EdgeId) : Edit.AllOrNothing graph (removeEdge id) := by
  intro error after refused
  rw [edit_removeEdge] at refused
  split at refused <;> cases refused
  rfl

theorem allOrNothing_removeNode (id : NodeId) : Edit.AllOrNothing graph (removeNode id) := by
  intro error after refused
  rw [edit_removeNode] at refused
  split at refused <;> cases refused
  rfl

/-! ## Composed edits -/

/-- Once the new producer is known to be there, each input that it takes over has just been freed. -/
theorem WellFormed.allOrNothing_setSource [EdgeIdSupply] (wf : graph.WellFormed) (old new : Port) :
    Edit.AllOrNothing graph (setSource old new) := by
  by_cases present : graph.hasNode new.node
  · obtain ⟨last, ran, _⟩ := wf.edit_setSource old present
    exact allOrNothing_of_ok ran
  · intro error after refused
    rw [edit_setSource_absent old present] at refused
    cases refused
    rfl

/-- All checks come before the first name. -/
theorem allOrNothing_renameNodes (names : List (NodeId × String)) : Edit.AllOrNothing graph (renameNodes names) := by
  intro error after refused
  have checks : Edit.Keeps (· = graph) (names.forM fun entry => requireNode entry.1) := by
    refine .forM (fun entry middle same => ?_) names
    rw [edit_requireNode]
    split <;> exact same
  have unchanged := checks graph rfl
  rw [renameNodes, edit_bind] at refused
  generalize graph.edit (names.forM fun entry => requireNode entry.1) = outcome at refused unchanged
  obtain ⟨result, middle⟩ := outcome
  cases result with
  | error first =>
    cases refused
    exact unchanged
  | ok _ => cases refused

end Graph

/-! ## Calls -/

inductive Call where
  | addNode (node : Node)
  | addEdge (edge : Edge)
  | connect (source target : Port)
  | removeEdge (id : EdgeId)
  | removeNode (id : NodeId)
  | setSource (old new : Port)
  | setDestination (old new : Port)
  | renameNodes (names : List (NodeId × String))
  | createOpWithConst (kind : NodeKind) (value : Tensor) (name : String) (first : Option Port)

def Call.run [EdgeIdSupply] : Call → Edit GraphError Unit
  | addNode node => discard (Graph.addNode node)
  | addEdge edge => discard (Graph.addEdge edge)
  | connect source target => discard (Graph.connect source target)
  | removeEdge id => discard (Graph.removeEdge id)
  | removeNode id => discard (Graph.removeNode id)
  | setSource old new => discard (Graph.setSource old new)
  | setDestination old new => discard (Graph.setDestination old new)
  | renameNodes names => Graph.renameNodes names
  | createOpWithConst kind value name first => discard (Graph.createOpWithConst kind value name first)

namespace Graph

/-- The calls that are refused halfway, with the error that they give and the graph that they leave behind. -/
inductive Interrupted [EdgeIdSupply] (graph : Graph) : Call → GraphError → Graph → Prop where
  -- the edge that was to be moved is lost, as the input it should lead to is fed by another one
  | moving {edge : Edge} {new : Port} (stored : graph.edge? edge.id = some edge) (present : graph.hasNode new.node)
    (other : new ≠ edge.target) (occupied : (graph.producer? new).isSome) :
    Interrupted graph (.setDestination edge.target new) (.inputPortOccupied new.node new.index) (graph.withoutEdge edge)
  -- the producer is neither in the graph nor one of the two new nodes, which stay
  | inserting {kind : NodeKind} {value : Tensor} {name : String} {source : Port}
    (absent : ¬ (graph.withOpAndConst kind value name).hasNode source.node) :
    Interrupted graph (.createOpWithConst kind value name (some source))
      (.danglingEdge source.node (graph.newOp kind name).id) (graph.withOpAndConst kind value name)

variable {graph after : Graph} {error : GraphError}

theorem Interrupted.refused [EdgeIdSupply] (wf : graph.WellFormed) {call : Call}
    (interrupted : Interrupted graph call error after) :
    graph.edit call.run = (.error error, after) ∧ after ≠ graph := by
  cases interrupted with
  | @moving edge new stored present other occupied =>
    refine ⟨?_, fun same => ?_⟩
    · rw [Call.run, edit_discard, wf.edit_setDestination_stored stored present, if_pos ⟨other, occupied⟩]
      rfl
    · have gone : (graph.withoutEdge edge).edge? edge.id = none := by rw [edge?_withoutEdge, if_pos rfl]
      rw [same, stored] at gone
      cases gone
  | @inserting kind value name source absent =>
    refine ⟨?_, fun same => ?_⟩
    · rw [Call.run, edit_discard, wf.edit_createOpWithConst_some, if_neg absent]
      rfl
    · have added : (graph.withOpAndConst kind value name).hasNode (graph.newOp kind name).id :=
        (wf.extends_withOpAndConst kind value name).hasNode_added (by simp)
      rw [same] at added
      exact graph.not_hasNode_uniqueId name added

theorem interrupted_of_setDestination [EdgeIdSupply] (wf : graph.WellFormed) {old new : Port}
    (refused : graph.edit (setDestination old new) = (.error error, after)) :
    after = graph ∨ Interrupted graph (.setDestination old new) error after := by
  by_cases present : graph.hasNode new.node
  · cases found : graph.inEdge? old with
    | none =>
      rw [edit_setDestination_unfed present found] at refused
      cases refused
    | some edge =>
      obtain ⟨stored, rfl⟩ := wf.inEdge?_eq_some_iff.mp found
      rw [wf.edit_setDestination_stored stored present] at refused
      split at refused
      next blocked =>
        cases refused
        exact .inr (.moving stored present blocked.1 blocked.2)
      next => cases refused
  · rw [setDestination, edit_bind_error (edit_requireNode_error present)] at refused
    cases refused
    exact .inl rfl

theorem interrupted_of_createOpWithConst [EdgeIdSupply] (wf : graph.WellFormed) {kind : NodeKind}
    {value : Tensor} {name : String}
    {first : Option Port} (refused : graph.edit (createOpWithConst kind value name first) = (.error error, after)) :
    Interrupted graph (.createOpWithConst kind value name first) error after := by
  cases first with
  | none =>
    have ran : graph.edit (createOpWithConst kind value name none) = _ := wf.edit_opAndConst_bind kind value name _
    rw [ran] at refused
    cases refused
  | some source =>
    rw [wf.edit_createOpWithConst_some] at refused
    split at refused
    next => cases refused
    next absent =>
      cases refused
      exact .inserting absent

/-- A refused call changes the graph exactly if it is interrupted: moving a producer to an input that is occupied
loses its edge, and an operation whose producer is missing stays in the graph, with its constant. -/
theorem refused_call_changes_iff [EdgeIdSupply] (wf : graph.WellFormed) (call : Call) (error : GraphError)
    (after : Graph) :
    graph.edit call.run = (.error error, after) ∧ after ≠ graph ↔ Interrupted graph call error after := by
  constructor
  · intro ⟨refused, changed⟩
    have untouched (whole : Edit.AllOrNothing graph call.run) : Interrupted graph call error after :=
      absurd (whole error after refused) changed
    cases call with
    | addNode node => exact untouched (allOrNothing_discard (allOrNothing_addNode node))
    | addEdge edge => exact untouched (allOrNothing_discard (allOrNothing_addEdge edge))
    | connect source target => exact untouched (allOrNothing_discard (allOrNothing_connect source target))
    | removeEdge id => exact untouched (allOrNothing_discard (allOrNothing_removeEdge id))
    | removeNode id => exact untouched (allOrNothing_discard (allOrNothing_removeNode id))
    | setSource old new => exact untouched (allOrNothing_discard (wf.allOrNothing_setSource old new))
    | renameNodes names => exact untouched (allOrNothing_renameNodes names)
    | setDestination old new =>
      exact (interrupted_of_setDestination wf (edit_discard_eq_error.mp refused)).resolve_left changed
    | createOpWithConst kind value name first =>
      exact interrupted_of_createOpWithConst wf (edit_discard_eq_error.mp refused)
  · exact fun interrupted => interrupted.refused wf

/-- Two producers, each on an input of one node. -/
def paired : Graph := Graph.empty.history
  [.addNode (.parameter "a" none), .addNode (.parameter "b" none), .addNode { id := "c", kind := .other "Add" },
    .connect ⟨"a", 0⟩ ⟨"c", 0⟩, .connect ⟨"b", 0⟩ ⟨"c", 1⟩]

/-- Both interruptions: the first producer is moved to the input of the second, and an operation is to read a node that
does not exist. -/
theorem refused_call_changes_iff_paired : paired.WellFormed ∧
    (∃ error after, paired.edit (Call.setDestination ⟨"c", 0⟩ ⟨"c", 1⟩).run = (.error error, after) ∧ after ≠ paired) ∧
    ∃ error after, paired.edit (Call.createOpWithConst .squeeze (.scalar 0) "s" (some ⟨"x", 0⟩)).run =
      (.error error, after) ∧
      after ≠ paired := by
  have wf : paired.WellFormed := wellFormed_empty.history _
  have fed : paired.producer? ⟨"c", 0⟩ = some ⟨"a", 0⟩ ∧ (paired.producer? ⟨"c", 1⟩).isSome := by decide +kernel
  have present : paired.hasNode "c" := by decide +kernel
  have absent : ¬ (paired.withOpAndConst .squeeze (.scalar 0) "s").hasNode "x" := by decide +kernel
  obtain ⟨id, edge, stored, _, target⟩ := wf.producer?_eq_some_iff.mp fed.1
  rw [← wf.edge_id stored] at stored
  have moving : Interrupted paired (.setDestination edge.target ⟨"c", 1⟩) _ _ :=
    .moving stored present (by simp [target]) fed.2
  have inserting : Interrupted paired (.createOpWithConst .squeeze (.scalar 0) "s" (some ⟨"x", 0⟩)) _ _ :=
    .inserting absent
  rw [target] at moving
  exact ⟨wf, ⟨_, _, (refused_call_changes_iff wf _ _ _).mpr moving⟩, _, _,
    (refused_call_changes_iff wf _ _ _).mpr inserting⟩

end Graph
end OpGraph
