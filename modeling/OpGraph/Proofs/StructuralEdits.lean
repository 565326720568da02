import OpGraph.Pass.FrontPhase
import OpGraph.Proofs.Histories
import OpGraph.Proofs.SameStructure

/-! Edits and passes on graphs of the same structure. What an edit gives, and the structure that it leaves behind,
depend on the structure it found: two runs stay in step through binds and loops. Edge ids are the exception, since a
new edge gets an unused one, so an edit that gives an edge id is in step once its result is dropped. -/

namespace OpGraph
open OpGraph.Graph

/-- Two edits give the same result or the same error, and leave the same structure behind. -/
structure SameOutcome {ε α : Type} (first second : Graph) (action other : Edit ε α) : Prop where
  result : (first.edit action).1 = (second.edit other).1
  after : SameStructure (first.edit action).2 (second.edit other).2

namespace SameOutcome

variable {ε α β : Type} {first second : Graph}

theorem bind {action other : Edit ε α} {next otherNext : α → Edit ε β} (outcome : SameOutcome first second action other)
    (rest : ∀ value after otherAfter, SameStructure after otherAfter →
      SameOutcome after otherAfter (next value) (otherNext value)) :
    SameOutcome first second (action >>= next) (other >>= otherNext) := by
  obtain ⟨result, after⟩ := outcome
  cases ran : first.edit action with
  | mk value middle =>
    cases otherRan : second.edit other with
    | mk otherValue otherMiddle =>
      rw [ran, otherRan] at result after
      subst result
      cases value with
      | error error => exact ⟨by rw [edit_bind_error ran, edit_bind_error otherRan],
        by rwa [edit_bind_error ran, edit_bind_error otherRan]⟩
      | ok value =>
        obtain ⟨result, last⟩ := rest value middle otherMiddle after
        exact ⟨by rwa [edit_bind_ok ran, edit_bind_ok otherRan], by rwa [edit_bind_ok ran, edit_bind_ok otherRan]⟩

/-- Where edits look at their graphs first, the rest may differ by what they saw. -/
theorem get_bind {next otherNext : Graph → Edit ε β} (rest : SameOutcome first second (next first) (otherNext second)) :
    SameOutcome first second (get >>= next) (get >>= otherNext) := by
  refine ⟨?_, ?_⟩
  · rw [edit_bind_ok (edit_get first), edit_bind_ok (edit_get second), rest.result]
  · rw [edit_bind_ok (edit_get first), edit_bind_ok (edit_get second)]
    exact rest.after

theorem discard {action other : Edit ε α} (outcome : SameOutcome first second action other) :
    SameOutcome first second (Functor.discard action) (Functor.discard other) := by
  refine ⟨?_, ?_⟩
  · rw [edit_discard, edit_discard, outcome.result]
  · rw [edit_discard, edit_discard]
    exact outcome.after

end SameOutcome

/-- An edit that sees nothing of a graph but its structure. -/
def Edit.Respects {ε α : Type} (action : Edit ε α) : Prop :=
  ∀ first second, SameStructure first second → SameOutcome first second action action

namespace Edit.Respects

variable {ε α β : Type}

theorem outcome {action : Edit ε α} (respects : Respects action) {first second : Graph}
    (same : SameStructure first second) : SameOutcome first second action action := respects first second same

theorem pure (value : α) : Respects (Pure.pure value : Edit ε α) := fun _ _ same => ⟨rfl, same⟩

theorem throw (error : ε) : Respects (MonadExcept.throw error : Edit ε α) := fun _ _ same => ⟨rfl, same⟩

theorem lift (result : Except ε α) : Respects (liftM result : Edit ε α) := fun _ _ same => ⟨rfl, same⟩

theorem bind {action : Edit ε α} {next : α → Edit ε β} (first : Respects action)
    (rest : ∀ value, Respects (next value)) :
    Respects (action >>= next) := fun _ _ same => (first.outcome same).bind fun value _ _ after =>
      (rest value).outcome after

theorem discard {action : Edit ε α} (respects : Respects action) : Respects (Functor.discard action) :=
  fun _ _ same => (respects.outcome same).discard

theorem map {action : Edit ε α} (respects : Respects action) (change : α → β) : Respects (change <$> action) := by
  rw [← bind_pure_comp]
  exact respects.bind fun _ => .pure _

theorem inPass {action : Edit GraphError α} (respects : Respects action) : Respects action.inPass := by
  intro first second same
  obtain ⟨result, after⟩ := respects.outcome same
  refine ⟨?_, ?_⟩
  · rw [edit_inPass, edit_inPass, result]
  · rw [edit_inPass, edit_inPass]
    exact after

theorem forM {action : α → Edit ε PUnit} (respects : ∀ item, Respects (action item)) (items : List α) :
    Respects (items.forM action) := by
  induction items with
  | nil => exact .pure _
  | cons item items ih => exact .bind (respects item) fun _ => ih

theorem mapM {action : α → Edit ε β} {items : List α} (respects : ∀ item ∈ items, Respects (action item)) :
    Respects (items.mapM action) := by
  induction items with
  | nil => exact .pure _
  | cons item items ih =>
    obtain ⟨here, later⟩ := List.forall_mem_cons.mp respects
    rw [List.mapM_cons]
    exact .bind here fun _ => .bind (ih later) fun _ => .pure _

end Edit.Respects

namespace Graph

/-! ## Updates -/

theorem Rewired.sameStructure {first second after otherAfter : Graph} {producer otherProducer : Port → Option Port}
    (one : Rewired first after producer) (other : Rewired second otherAfter otherProducer)
    (same : SameStructure first second)
    (producers : ∀ port, producer port = otherProducer port) : SameStructure after otherAfter := by
  apply SameStructure.of_producers one.wellFormed other.wellFormed
  · intro id
    rw [one.node?, other.node?, same.node?]
  · intro port
    rw [one.producer?, other.producer?, producers]

namespace SameStructure

variable {first second : Graph} (same : SameStructure first second)
include same

theorem withNode {node : Node} (unused : ¬ first.hasNode node.id) :
    SameStructure (first.withNode node) (second.withNode node) := by
  have otherUnused : ¬ second.hasNode node.id := by rwa [← same.hasNode]
  apply of_producers (same.wellFormed.withNode unused) (same.otherWellFormed.withNode otherUnused)
  · intro id
    rw [node?_withNode, node?_withNode, same.node?]
  · intro port
    rw [same.wellFormed.producer?_withNode unused, same.otherWellFormed.producer?_withNode otherUnused, same.producer?]

theorem modifyNode (id : NodeId) (change : Node → Node) :
    SameStructure (first.modifyNode id change) (second.modifyNode id change) := by
  apply of_producers (same.wellFormed.modifyNode id change) (same.otherWellFormed.modifyNode id change)
  · intro other
    rw [node?_modifyNode, node?_modifyNode, same.node?]
  · intro port
    rw [same.wellFormed.producer?_modifyNode, same.otherWellFormed.producer?_modifyNode, same.producer?]

theorem withoutNode (id : NodeId) : SameStructure (first.withoutNode id) (second.withoutNode id) := by
  apply of_producers (same.wellFormed.withoutNode id) (same.otherWellFormed.withoutNode id)
  · intro other
    rw [same.wellFormed.node?_withoutNode, same.otherWellFormed.node?_withoutNode, same.node?]
  · intro port
    rw [same.wellFormed.producer?_withoutNode, same.otherWellFormed.producer?_withoutNode, same.producer?]

theorem withoutEdge {edge other : Edge} (stored : first.edge? edge.id = some edge)
    (otherStored : second.edge? other.id = some other)
    (target : edge.target = other.target) : SameStructure (first.withoutEdge edge) (second.withoutEdge other) := by
  apply of_producers (same.wellFormed.withoutEdge stored) (same.otherWellFormed.withoutEdge otherStored)
  · intro id
    rw [node?_withoutEdge, node?_withoutEdge, same.node?]
  · intro port
    rw [same.wellFormed.producer?_withoutEdge stored, same.otherWellFormed.producer?_withoutEdge otherStored,
      target, same.producer?]

end SameStructure

/-! ## Single edits -/

theorem respects_addNode (node : Node) : Edit.Respects (addNode node) := by
  intro first second same
  refine ⟨?_, ?_⟩ <;> rw [edit_addNode, edit_addNode, ← same.hasNode] <;> split
  · rfl
  · rfl
  · exact same
  next unused => exact same.withNode unused

theorem respects_connect [EdgeIdSupply] (source target : Port) : Edit.Respects (discard <| connect source target) := by
  intro first second same
  refine ⟨?_, ?_⟩ <;>
    rw [edit_discard, edit_discard, edit_connect_eq, edit_connect_eq, ← same.hasNode, ← same.hasNode,
      ← same.producer?] <;> split
  · rfl
  · split <;> rfl
  · exact same
  next ends =>
    split
    · exact same
    next free =>
      simp only [Bool.or_eq_true, Bool.not_eq_true', not_or, Bool.not_eq_false,
        Option.not_isSome_iff_eq_none] at ends free
      obtain ⟨sourceNode, targetNode⟩ := ends
      have one := same.wellFormed.rewired_join sourceNode targetNode free
      have other := same.otherWellFormed.rewired_join (same.hasNode _ ▸ sourceNode) (same.hasNode _ ▸ targetNode)
        (same.producer? _ ▸ free)
      exact one.sameStructure other same fun port => by rw [same.producer?]

theorem respects_removeNode (id : NodeId) : Edit.Respects (removeNode id) := by
  intro first second same
  refine ⟨?_, ?_⟩ <;> rw [edit_removeNode, edit_removeNode, ← same.node?] <;> split
  · rfl
  · rfl
  · exact same.withoutNode id
  · exact same

theorem respects_requireNode (id : NodeId) : Edit.Respects (requireNode id) := by
  intro first second same
  refine ⟨?_, ?_⟩ <;> rw [edit_requireNode, edit_requireNode, ← same.hasNode] <;> split
  · rfl
  · rfl
  · exact same
  · exact same

/-- The removed edges may have different ids, but end at one port. -/
theorem SameStructure.removeEdge {first second : Graph} (same : SameStructure first second) {edge other : Edge}
    (stored : first.edge? edge.id = some edge) (otherStored : second.edge? other.id = some other)
    (target : edge.target = other.target) :
    SameOutcome first second (discard <| removeEdge edge.id) (discard <| removeEdge other.id) := by
  have ran : first.edit (discard <| Graph.removeEdge edge.id) = (.ok (), first.withoutEdge edge) :=
    edit_discard_ok (by rw [edit_removeEdge, stored])
  have otherRan : second.edit (discard <| Graph.removeEdge other.id) = (.ok (), second.withoutEdge other) :=
    edit_discard_ok (by rw [edit_removeEdge, otherStored])
  refine ⟨?_, ?_⟩
  · rw [ran, otherRan]
  · rw [ran, otherRan]
    exact same.withoutEdge stored otherStored target

theorem respects_setSource [EdgeIdSupply] (old new : Port) : Edit.Respects (setSource old new) := by
  intro first second same
  by_cases present : first.hasNode new.node
  · obtain ⟨after, ran, _, rewired⟩ := same.wellFormed.edit_setSource old present
    obtain ⟨otherAfter, otherRan, _, otherRewired⟩ := same.otherWellFormed.edit_setSource old (same.hasNode _ ▸ present)
    refine ⟨?_, ?_⟩
    · rw [ran, otherRan, same.length_outEdges]
    · rw [ran, otherRan]
      exact rewired.sameStructure otherRewired same fun port => by rw [same.producer?]
  · have refused {graph : Graph} (absent : ¬ graph.hasNode new.node) :
        graph.edit (setSource old new) = (.error (.nodeNotFound new.node), graph) :=
      edit_bind_error (edit_requireNode_error absent) _
    have otherAbsent : ¬ second.hasNode new.node := by rwa [← same.hasNode]
    refine ⟨?_, ?_⟩
    · rw [refused present, refused otherAbsent]
    · rw [refused present, refused otherAbsent]
      exact same

theorem respects_setDestination [EdgeIdSupply] (old new : Port) : Edit.Respects (setDestination old new) := by
  intro first second same
  refine ((respects_requireNode new.node).outcome same).bind fun _ after otherAfter same => .get_bind ?_
  have producers := same.producer? old
  have occupied := same.isSome_inEdge? old
  cases found : after.inEdge? old with
  | none =>
    cases otherFound : otherAfter.inEdge? old with
    | none => exact (Edit.Respects.pure false).outcome same
    | some edge => simp [found, otherFound] at occupied
  | some edge =>
    cases otherFound : otherAfter.inEdge? old with
    | none => simp [found, otherFound] at occupied
    | some other =>
      obtain ⟨stored, target⟩ := same.wellFormed.inEdge?_eq_some_iff.mp found
      obtain ⟨otherStored, otherTarget⟩ := same.otherWellFormed.inEdge?_eq_some_iff.mp otherFound
      rw [Graph.producer?, Graph.producer?, found, otherFound] at producers
      have source : edge.source = other.source := Option.some.inj producers
      simp only [source]
      refine (same.removeEdge stored otherStored (target.trans otherTarget.symm)).bind fun _ _ _ same => ?_
      exact ((respects_connect other.source new).bind fun _ => .pure true).outcome same

theorem respects_renameNodes (names : List (NodeId × String)) : Edit.Respects (renameNodes names) := by
  refine .bind (.forM (fun _ => respects_requireNode _) _) fun _ => ?_
  intro first second same
  refine ⟨rfl, ?_⟩
  rw [edit_modify, edit_modify]
  induction names generalizing first second with
  | nil => exact same
  | cons entry names ih => exact ih _ _ (same.modifyNode _ _)

/-! ## Insertion and removal -/

theorem respects_createOp (kind : NodeKind) (name : String) : Edit.Respects (createOp kind name) := by
  refine fun _ _ same => .get_bind ?_
  rw [same.uniqueId]
  exact (respects_addNode _).outcome same

theorem respects_createShapeOf (name : String) (outputType : ElementType) :
    Edit.Respects (createShapeOf name outputType) := by
  refine fun _ _ same => .get_bind ?_
  rw [same.uniqueId]
  exact (respects_addNode _).outcome same

theorem respects_createConst (name : String) (value : Tensor) : Edit.Respects (createConst name value) := by
  refine fun _ _ same => .get_bind ?_
  rw [same.uniqueId]
  exact (respects_addNode _).outcome same

theorem respects_createOpWithConst [EdgeIdSupply] (kind : NodeKind) (value : Tensor) (name : String)
    (first : Option Port) : Edit.Respects (createOpWithConst kind value name first) := by
  refine .bind (respects_createOp _ _) fun _ => .bind (respects_createConst _ _) fun _ =>
    .bind (respects_connect _ _) fun _ => ?_
  cases first with
  | none => exact .pure _
  | some source => exact .bind (respects_connect _ _) fun _ => .pure _

theorem respects_removeDead (id : NodeId) : Edit.Respects (removeDead id) := by
  refine fun _ _ same => .get_bind ?_
  rw [same.length_incoming, same.length_outgoing]
  exact ((respects_removeNode id).discard.bind fun _ => .pure _).outcome same

theorem respects_removeDeadNodes : Edit.Respects removeDeadNodes := by
  refine fun _ _ same => .get_bind ?_
  rw [same.deadNodes]
  exact (Edit.Respects.mapM (fun id _ => respects_removeDead id) |>.bind fun _ => .pure _).outcome same

end Graph

/-! ## Decomposition -/

theorem Replacement.respects_replaceAll {replacement : Replacement}
    (check : ∀ first second, SameStructure first second → replacement.check first = replacement.check second)
    (replace : ∀ id, Edit.Respects (replacement.replace id)) : Edit.Respects replacement.replaceAll := by
  refine fun _ _ same => .get_bind ?_
  rw [same.nodesOfKind, check _ _ same]
  exact Edit.Respects.outcome (.bind (.forM (fun _ => .lift _) _) fun _ =>
    .bind (.mapM fun node _ => replace node.id) fun _ => .pure _) same

namespace RankDecomposition

theorem outputType_congr {first second : Graph} (same : SameStructure first second) :
    outputType first = outputType second := by
  funext node
  have vacant : (first.inEdge? ⟨node.id, 0⟩).isNone = (second.inEdge? ⟨node.id, 0⟩).isNone := by
    rw [← Option.not_isSome, ← Option.not_isSome, same.isSome_inEdge?]
  simp only [outputType, vacant]

variable [EdgeIdSupply]

theorem respects_insertChain (id : NodeId) (name : String) (outputType : ElementType) :
    Edit.Respects (insertChain id name outputType) := by
  have chain : Edit.Respects (createChain name outputType) :=
    .bind (respects_createShapeOf _ _) fun _ => .bind (respects_createShapeOf _ _) fun _ =>
      .bind (respects_connect _ _) fun _ =>
      .bind (respects_createOpWithConst _ _ _ _) fun _ => .pure _
  refine .bind chain fun (shape, rank) => .bind ?_ fun _ => .pure _
  exact .bind (.discard (respects_setSource _ _)) fun _ => .bind (.discard (respects_setDestination _ _)) fun _ =>
    .bind (.discard (respects_removeNode _)) fun _ => respects_renameNodes _

theorem respects_decompose (id : NodeId) : Edit.Respects (decompose id) := by
  have required : Edit.Respects (requiredNode id) := by
    refine fun _ _ same => .get_bind ?_
    rw [same.node?]
    split
    · exact (Edit.Respects.pure _).outcome same
    · exact (Edit.Respects.throw _).outcome same
  refine .bind required fun node _ _ same => .get_bind ?_
  rw [outputType_congr same]
  exact Edit.Respects.outcome (.bind (.lift _) fun _ => .inPass (respects_insertChain _ _ _)) same

theorem respects_replace (id : NodeId) : Edit.Respects (replace id) := by
  refine fun _ _ same => .get_bind ?_
  rw [statsOf, statsOf, same.length_outEdges]
  exact ((respects_decompose id).discard.bind fun _ => .pure _).outcome same

theorem respects_pass : Edit.Respects pass.run := by
  refine replacement.respects_replaceAll ?_ respects_replace
  intro first second same
  funext node
  exact congrArg (discard <| · node) (outputType_congr same)

end RankDecomposition

/-! ## The front phase -/

theorem PassRegistry.respects_runAll {registry : PassRegistry}
    (passes : ∀ pass ∈ registry.passes, Edit.Respects pass.run) : Edit.Respects registry.runAll := by
  refine .mapM fun pass member => ?_
  exact .bind (passes pass (List.mem_of_mem_filter member)) fun _ => .pure _

namespace FrontPhase

def SameRun : Except PassError (Graph × FrontPhaseReport) → Except PassError (Graph × FrontPhaseReport) → Prop
  | .ok (after, report), .ok (otherAfter, otherReport) => report = otherReport ∧ SameStructure after otherAfter
  | .error error, .error otherError => error = otherError
  | _, _ => False

theorem respects_checkValid : Edit.Respects checkValid := by
  refine fun first second same => .get_bind ?_
  rw [same.wellFormed.validationErrors_eq_nil, same.otherWellFormed.validationErrors_eq_nil]
  exact (Edit.Respects.pure _).outcome same

theorem respects_cleanUp (phase : FrontPhase) : Edit.Respects phase.cleanUp := by
  unfold cleanUp
  split
  · exact .map (.inPass respects_removeDeadNodes) _
  · exact .pure _

theorem respects_checkAcyclic : Edit.Respects checkAcyclic := by
  refine fun first second same => .get_bind ?_
  rw [same.topologicalOrder]
  split
  · exact (Edit.Respects.throw _).outcome same
  · exact (Edit.Respects.pure _).outcome same

theorem respects_edit {phase : FrontPhase} (passes : ∀ pass ∈ phase.registry.passes, Edit.Respects pass.run) :
    Edit.Respects phase.edit := by
  refine fun first second same => .get_bind ?_
  rw [same.nodeCount]
  refine Edit.Respects.outcome (.bind respects_checkValid fun _ => .bind (PassRegistry.respects_runAll passes) fun _ =>
    .bind (respects_cleanUp phase) fun _ => .bind respects_checkAcyclic fun _ => ?_) same
  refine fun first second same => .get_bind ?_
  rw [same.nodeCount]
  exact (Edit.Respects.pure _).outcome same

theorem sameRun {phase : FrontPhase} (passes : ∀ pass ∈ phase.registry.passes, Edit.Respects pass.run)
    {first second : Graph} (same : SameStructure first second) : SameRun (phase.run first) (phase.run second) := by
  obtain ⟨result, after⟩ := (respects_edit passes).outcome same
  rw [run, run]
  cases ran : first.edit phase.edit with
  | mk value last =>
    cases otherRan : second.edit phase.edit with
    | mk otherValue otherLast =>
      rw [ran, otherRan] at result after
      subst result
      cases value with
      | error error => rfl
      | ok report => exact ⟨rfl, after⟩

end FrontPhase

namespace Graph

/-- No query, and no pass by what it gives, tells two graphs apart. -/
structure Indistinguishable [EdgeIdSupply] (first second : Graph) : Prop where
  topologicalOrder : first.topologicalOrder = second.topologicalOrder
  infer : first.infer = second.infer
  reachableTo : ∀ targets, first.reachableTo targets = second.reachableTo targets
  fingerprint : first.fingerprint = second.fingerprint
  flags : FormatFlags.ofGraph first = FormatFlags.ofGraph second
  differences : ∀ reference last options, first.differences reference last options =
    second.differences reference last options
  differencesFrom : ∀ (graph : Graph) last options,
    graph.differences first last options = graph.differences second last options
  removeDeadNodes : SameOutcome first second Graph.removeDeadNodes Graph.removeDeadNodes
  decomposeRanks : SameOutcome first second RankDecomposition.pass.run RankDecomposition.pass.run
  frontPhase : ∀ phase : FrontPhase, phase.registry.passes = PassRegistry.frontPhase.passes →
    FrontPhase.SameRun (phase.run first) (phase.run second)

/-- Neither the ids of edges nor the order in which anything was inserted has an influence on a result. -/
theorem indistinguishable_of_sameStructure [EdgeIdSupply] {first second : Graph} (same : SameStructure first second) :
    Indistinguishable first second where
  topologicalOrder := same.topologicalOrder
  infer := same.infer
  reachableTo := same.reachableTo
  fingerprint := same.fingerprint
  flags := same.flags
  differences reference := same.answers.differences (.refl reference)
  differencesFrom graph := (SameAnswers.refl graph).differences same.answers
  removeDeadNodes := respects_removeDeadNodes.outcome same
  decomposeRanks := RankDecomposition.respects_pass.outcome same
  frontPhase phase defaults := by
    apply FrontPhase.sameRun _ same
    rw [defaults]
    intro pass member
    rw [List.mem_singleton.mp member]
    exact RankDecomposition.respects_pass

/-- A rank whose inputs were connected in descending order. -/
def descending : Graph := Graph.empty.history
  [.addNode (.result "z"), .addNode { id := "r", kind := .rank, outputType := some .i64 },
    .addNode (.parameter "x" (some [2])), .addEdge ⟨⟨9⟩, ⟨"r", 0⟩, ⟨"z", 0⟩⟩,
    .addEdge ⟨⟨5⟩, ⟨"x", 1⟩, ⟨"r", 1⟩⟩, .addEdge ⟨⟨7⟩, ⟨"x", 0⟩, ⟨"r", 0⟩⟩]

/-- The same graph, inserted in another order with other edge ids. -/
def ascending : Graph := Graph.empty.history
  [.addNode (.parameter "x" (some [2])), .addNode { id := "r", kind := .rank, outputType := some .i64 },
    .addNode (.result "z"), .connect ⟨"x", 0⟩ ⟨"r", 0⟩, .connect ⟨"x", 1⟩ ⟨"r", 1⟩, .connect ⟨"r", 0⟩ ⟨"z", 0⟩]

theorem indistinguishable_of_sameStructure_descending : descending.edges ≠ ascending.edges ∧
    descending.incomingEdges "r" ≠ ascending.incomingEdges "r" ∧ Indistinguishable descending ascending ∧
    ∃ reloaded, ofParts descending.nodes.values descending.edges.values = .ok reloaded ∧
      Indistinguishable descending reloaded := by
  have wf : descending.WellFormed := wellFormed_empty.history _
  have otherWf : ascending.WellFormed := wellFormed_empty.history _
  have nodes : descending.nodes = ascending.nodes := by decide +kernel
  have links : (descending.edgeList.map Edge.link).Perm (ascending.edgeList.map Edge.link) := by decide +kernel
  have differ : descending.edges ≠ ascending.edges ∧ descending.incomingEdges "r" ≠ ascending.incomingEdges "r" := by
    decide +kernel
  have allNodes := List.Perm.of_eq (values_eq descending.nodes)
  have allEdges := List.Perm.of_eq (values_eq descending.edges)
  obtain ⟨reloaded, read, _⟩ := wf.ofParts allNodes allEdges
  exact ⟨differ.1, differ.2, indistinguishable_of_sameStructure (.of_links wf otherWf nodes links), reloaded, read,
    indistinguishable_of_sameStructure (.of_ofParts wf allNodes allEdges read)⟩

end Graph
end OpGraph
