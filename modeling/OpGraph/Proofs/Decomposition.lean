import OpGraph.Pass.RankDecomposition
import OpGraph.Proofs.Insertion

/-! Replacing one rank operation by a chain. A rank has one output; what is fed by another port of it
loses its producer, so the edges that leave the node are either relocated to the end of the chain or cut. -/

namespace OpGraph.RankDecomposition
open OpGraph.Graph

structure Chain where
  shape : NodeId
  length : NodeId
  squeeze : NodeId
  axis : NodeId
deriving DecidableEq

namespace Chain

def shapeNode (chain : Chain) (name : String) (outputType : ElementType) : Node :=
  { id := chain.shape, kind := .shapeOf, name := some s!"{name}/shape_of", outputType := some outputType }

def lengthNode (chain : Chain) (name : String) (outputType : ElementType) : Node :=
  { id := chain.length, kind := .shapeOf, name := some s!"{name}/rank_of", outputType := some outputType }

/-- The name under which the squeeze is created, before it inherits that of the rank. -/
def firstName (name : String) : String := s!"{name}/0d_rank_of"

def axisNode (chain : Chain) (name : String) : Node :=
  { Node.const chain.axis (.scalar 0) with name := some s!"{firstName name}/axis" }

def squeezeNode (chain : Chain) (name : String) : Node :=
  { id := chain.squeeze, kind := .squeeze, name := some name }

def nodes (chain : Chain) (name : String) (outputType : ElementType) : List Node :=
  [chain.axisNode name, chain.squeezeNode name, chain.lengthNode name outputType, chain.shapeNode name outputType]

def firstNodes (chain : Chain) (name : String) (outputType : ElementType) : List Node :=
  [chain.axisNode name, chain.squeezeNode (firstName name), chain.lengthNode name outputType,
    chain.shapeNode name outputType]

def ids (chain : Chain) : List NodeId := [chain.axis, chain.squeeze, chain.length, chain.shape]

def inputs (chain : Chain) : List Port := [⟨chain.shape, 0⟩, ⟨chain.length, 0⟩, ⟨chain.squeeze, 0⟩, ⟨chain.squeeze, 1⟩]

theorem map_id_nodes (chain : Chain) (name : String) (outputType : ElementType) :
    (chain.nodes name outputType).map Node.id = chain.ids := rfl

theorem nodup_ids {chain : Chain} : chain.ids.Nodup ↔
    (chain.axis ≠ chain.squeeze ∧ chain.axis ≠ chain.length ∧ chain.axis ≠ chain.shape) ∧
      (chain.squeeze ≠ chain.length ∧ chain.squeeze ≠ chain.shape) ∧ chain.length ≠ chain.shape := by
  simp [ids]

theorem forall_mem_ids {chain : Chain} {property : NodeId → Prop} : (∀ id ∈ chain.ids, property id) ↔
    property chain.axis ∧ property chain.squeeze ∧ property chain.length ∧ property chain.shape := by
  simp [ids]

end Chain

/-- Where an input finds its producer once the rank is replaced; nowhere, if that was another of its ports. -/
def relocate (rank squeeze : NodeId) (source : Port) : Option Port :=
  if source.node = rank then
    if source.index = 0 then some ⟨squeeze, 0⟩ else none
  else some source

theorem relocate_eq_some_iff {rank squeeze : NodeId} {source moved : Port} : relocate rank squeeze source = some moved ↔
    (source = ⟨rank, 0⟩ ∧ moved = ⟨squeeze, 0⟩) ∨ (source.node ≠ rank ∧ moved = source) := by
  obtain ⟨node, index⟩ := source
  by_cases here : node = rank
  · by_cases first : index = 0 <;> simp [relocate, here, first, eq_comm]
  · have elsewhere : rank ≠ node := Ne.symm here
    simp [relocate, here, elsewhere, eq_comm]

/-- Dropping what the removed node still feeds, after its first port was moved, is the relocation. -/
theorem bind_relocate {rank squeeze : NodeId} (other : squeeze ≠ rank) (found : Option Port) :
    ((found.map fun source => if source = ⟨rank, 0⟩ then ⟨squeeze, 0⟩ else source).filter
      fun source => source.node != rank) = found.bind (relocate rank squeeze) := by
  cases found with
  | none => rfl
  | some source =>
    obtain ⟨node, index⟩ := source
    by_cases here : node = rank
    · by_cases first : index = 0 <;> simp [relocate, here, first, other]
    · simp [relocate, here]

theorem edit_createChain [EdgeIdSupply] {graph : Graph} (wf : graph.WellFormed) (name : String)
    (outputType : ElementType) :
    ∃ (chain : Chain) (after : Graph),
      graph.edit (createChain name outputType) = (.ok (chain.shape, chain.squeeze), after) ∧
      Extends graph after (chain.firstNodes name outputType)
        fun port => if port = ⟨chain.squeeze, 0⟩ then some ⟨chain.length, 0⟩
          else if port = ⟨chain.squeeze, 1⟩ then some ⟨chain.axis, 0⟩
          else if port = ⟨chain.length, 0⟩ then some ⟨chain.shape, 0⟩ else graph.producer? port := by
  let shape : Node :=
    { id := graph.uniqueId s!"{name}/shape_of", kind := .shapeOf, name := some s!"{name}/shape_of"
      outputType := some outputType }
  let withShape := graph.withNode shape
  let length : Node :=
    { id := withShape.uniqueId s!"{name}/rank_of", kind := .shapeOf, name := some s!"{name}/rank_of"
      outputType := some outputType }
  let withBoth := withShape.withNode length
  have first : Extends graph withShape [shape] graph.producer? := wf.extends_withNode (graph.not_hasNode_uniqueId _)
  have second : Extends withShape withBoth [length] withShape.producer? :=
    first.wellFormed.extends_withNode (withShape.not_hasNode_uniqueId _)
  have both := first.trans second
  have shapePresent : withBoth.hasNode shape.id := both.hasNode_added (by simp)
  have lengthPresent : withBoth.hasNode length.id := both.hasNode_added (by simp)
  have vacant : withBoth.producer? ⟨length.id, 0⟩ = none := by
    rw [second.producer?, first.wellFormed.producer?_eq_none (withShape.not_hasNode_uniqueId _)]
  have joined : Rewired withBoth (withBoth.join ⟨shape.id, 0⟩ ⟨length.id, 0⟩) fun port =>
      if port = ⟨length.id, 0⟩ then some ⟨shape.id, 0⟩ else withBoth.producer? port :=
    both.wellFormed.rewired_join shapePresent lengthPresent vacant
  obtain ⟨squeeze, axis, after, ran, last⟩ := joined.wellFormed.edit_createOpWithConst .squeeze (.scalar 0)
    (Chain.firstName name) (show (withBoth.join _ _).hasNode (Port.mk length.id 0).node from lengthPresent)
  refine ⟨⟨shape.id, length.id, squeeze, axis⟩, after, ?_, ?_⟩
  · rw [createChain, edit_bind_ok (edit_createShapeOf graph _ outputType),
      edit_bind_ok (edit_createShapeOf withShape _ outputType),
      edit_bind_ok (edit_discard_ok (edit_connect_ok shapePresent lengthPresent vacant))]
    exact edit_bind_ok ran _
  · have whole := (both.rewired joined).trans last
    refine ⟨whole.wellFormed, whole.nodup, whole.fresh, whole.node?, fun port => ?_⟩
    rw [whole.producer?, joined.producer?, second.producer?, first.producer?]

structure Decomposed (before after : Graph) (rank : NodeId) (name : String) (outputType : ElementType)
    (chain : Chain) : Prop where
  wellFormed : after.WellFormed
  distinct : chain.ids.Nodup
  fresh : ∀ id ∈ chain.ids, ¬ before.hasNode id
  hasNode_iff : ∀ id, after.hasNode id ↔ (before.hasNode id ∧ id ≠ rank) ∨ id ∈ chain.ids
  node?_kept : ∀ {id}, before.hasNode id → id ≠ rank → after.node? id = before.node? id
  node?_chain : ∀ node ∈ chain.nodes name outputType, after.node? node.id = some node
  producer?_kept : ∀ {port}, before.hasNode port.node → port.node ≠ rank →
    after.producer? port = (before.producer? port).bind (relocate rank chain.squeeze)
  producer?_shape : after.producer? ⟨chain.shape, 0⟩ = (before.producer? ⟨rank, 0⟩).bind (relocate rank chain.squeeze)
  producer?_length : after.producer? ⟨chain.length, 0⟩ = some ⟨chain.shape, 0⟩
  producer?_squeeze : after.producer? ⟨chain.squeeze, 0⟩ = some ⟨chain.length, 0⟩
  producer?_axis : after.producer? ⟨chain.squeeze, 1⟩ = some ⟨chain.axis, 0⟩
  producer?_other : ∀ {port}, port.node ∈ chain.ids → port ∉ chain.inputs → after.producer? port = none

/-- Whatever is fed is an input of a node that was there, with its producer relocated, or one of the chain. -/
theorem Decomposed.producer?_cases {before after : Graph} {rank : NodeId} {name : String} {outputType : ElementType}
    {chain : Chain} (decomposed : Decomposed before after rank name outputType chain) {source target : Port}
    (fed : after.producer? target = some source) :
    (before.hasNode target.node ∧ target.node ≠ rank ∧
        ∃ old, before.producer? target = some old ∧ relocate rank chain.squeeze old = some source) ∨
      (target = ⟨chain.shape, 0⟩ ∧
        ∃ old, before.producer? ⟨rank, 0⟩ = some old ∧ relocate rank chain.squeeze old = some source) ∨
      (target = ⟨chain.length, 0⟩ ∧ source = ⟨chain.shape, 0⟩) ∨
      (target = ⟨chain.squeeze, 0⟩ ∧ source = ⟨chain.length, 0⟩) ∨
      (target = ⟨chain.squeeze, 1⟩ ∧ source = ⟨chain.axis, 0⟩) := by
  have present := (decomposed.wellFormed.hasNode_of_producer? fed).2
  rcases (decomposed.hasNode_iff target.node).mp present with ⟨known, other⟩ | inserted
  · rw [decomposed.producer?_kept known other, Option.bind_eq_some_iff] at fed
    exact .inl ⟨known, other, fed⟩
  · by_cases connected : target ∈ chain.inputs
    · refine .inr ?_
      simp only [Chain.inputs, List.mem_cons, List.not_mem_nil, or_false] at connected
      rcases connected with same | same | same | same <;> subst same
      · rw [decomposed.producer?_shape, Option.bind_eq_some_iff] at fed
        exact .inl ⟨rfl, fed⟩
      · exact .inr (.inl ⟨rfl, Option.some.inj (fed.symm.trans decomposed.producer?_length)⟩)
      · exact .inr (.inr (.inl ⟨rfl, Option.some.inj (fed.symm.trans decomposed.producer?_squeeze)⟩))
      · exact .inr (.inr (.inr ⟨rfl, Option.some.inj (fed.symm.trans decomposed.producer?_axis)⟩))
    · cases fed.symm.trans (decomposed.producer?_other inserted connected)

theorem edit_renameNode {graph : Graph} {id : NodeId} (present : graph.hasNode id) (name : String) :
    graph.edit (renameNodes [(id, name)]) =
      (.ok (), graph.modifyNode id fun node => { node with name := some name }) := by
  rw [renameNodes, List.forM_eq_forM, List.forM_cons, List.forM_nil,
    edit_bind_ok (edit_bind_ok (edit_requireNode_ok present) _)]
  rfl

/-- A node is gone, its name passed on to another one; a third one takes over what fed it, and what it fed
is relocated. -/
structure Spliced (before after : Graph) (id shape squeeze : NodeId) (source : Port) (name : String) : Prop where
  wellFormed : after.WellFormed
  node? : ∀ other, after.node? other = if other = id then none else if squeeze = other then
    (before.node? other).map fun node => { node with name := some name } else before.node? other
  producer? : ∀ port, after.producer? port = if port.node = id then none
    else (if port = ⟨shape, 0⟩ then some source else before.producer? port).bind (relocate id squeeze)

theorem Spliced.hasNode_iff {before after : Graph} {id shape squeeze : NodeId} {source : Port} {name : String}
    (spliced : Spliced before after id shape squeeze source name) (other : NodeId) :
    after.hasNode other ↔ before.hasNode other ∧ other ≠ id := by
  rw [hasNode_eq_isSome, spliced.node?, hasNode_eq_isSome]
  by_cases here : other = id
  · simp [here]
  · simp only [here, if_false, ne_eq, not_false_eq_true, and_true]
    split <;> simp

/-- Once the chain is there, it takes over what feeds the rank and what the rank feeds. -/
theorem edit_splice [EdgeIdSupply] {graph : Graph} (wf : graph.WellFormed) {id shape squeeze : NodeId} {source : Port}
    (present : graph.hasNode id) (fed : graph.producer? ⟨id, 0⟩ = some source)
    (shapePresent : graph.hasNode shape) (free : graph.producer? ⟨shape, 0⟩ = none)
    (squeezePresent : graph.hasNode squeeze) (other : squeeze ≠ id) (name : String) :
    ∃ after, graph.edit (splice id shape squeeze name) = (.ok (), after) ∧
      Spliced graph after id shape squeeze source name := by
  have newSource : graph.hasNode (Port.mk squeeze 0).node := squeezePresent
  obtain ⟨moved, sourceSet, _, first⟩ := wf.edit_setSource ⟨id, 0⟩ newSource
  have newTarget : moved.hasNode (Port.mk shape 0).node := (first.hasNode shape).trans shapePresent
  have stillFed : moved.producer? ⟨id, 0⟩ = some (if source = ⟨id, 0⟩ then ⟨squeeze, 0⟩ else source) := by
    rw [first.producer?, fed, Option.map_some]
  have stillFree : moved.producer? ⟨shape, 0⟩ = none := by
    rw [first.producer?, free, Option.map_none]
  obtain ⟨turned, destinationSet, _, second⟩ := first.wellFormed.edit_setDestination newTarget stillFed (.inl stillFree)
  obtain ⟨node, found⟩ := exists_node?_of_hasNode present
  have removed : turned.edit (removeNode id) = (.ok node, turned.withoutNode id) := by
    rw [edit_removeNode, second.node?, first.node?, found]
  have kept : (turned.withoutNode id).hasNode squeeze := by
    rw [second.wellFormed.hasNode_withoutNode, second.hasNode, first.hasNode, squeezePresent]
    simpa using other.symm
  let after := (turned.withoutNode id).modifyNode squeeze fun node => { node with name := some name }
  refine ⟨after, ?_, (second.wellFormed.withoutNode id).modifyNode squeeze _, ?_, ?_⟩
  · rw [splice, edit_bind_ok (edit_discard_ok sourceSet), edit_bind_ok (edit_discard_ok destinationSet),
      edit_bind_ok (edit_discard_ok removed), edit_renameNode kept]
  · intro node
    rw [node?_modifyNode, second.wellFormed.node?_withoutNode, second.node?, first.node?]
    by_cases here : node = id
    · simp [here, other]
    · simp [here, Ne.symm here]
  · intro port
    rw [(second.wellFormed.withoutNode id).producer?_modifyNode, second.wellFormed.producer?_withoutNode,
      second.producer?, first.producer?]
    by_cases here : port.node = id
    · rw [if_pos here, if_pos here]
    · have elsewhere : port ≠ ⟨id, 0⟩ := fun same => here (congrArg Port.node same)
      rw [if_neg here, if_neg here, if_neg elsewhere, ← bind_relocate other]
      congr 1
      split <;> rfl

/-- All nodes of the chain are stored as they were created, but the squeeze has another name by now. -/
theorem Spliced.node?_chain {before after : Graph} {id : NodeId} {source : Port} {name : String} {chain : Chain}
    {outputType : ElementType} (spliced : Spliced before after id chain.shape chain.squeeze source name)
    (distinct : chain.ids.Nodup) (apart : ∀ other ∈ chain.ids, other ≠ id)
    (stored : ∀ node ∈ chain.firstNodes name outputType, before.node? node.id = some node) :
    ∀ node ∈ chain.nodes name outputType, after.node? node.id = some node := by
  obtain ⟨axisApart, squeezeApart, lengthApart, shapeApart⟩ := Chain.forall_mem_ids.mp apart
  obtain ⟨⟨axisSqueeze, _⟩, ⟨squeezeLength, squeezeShape⟩, _⟩ := Chain.nodup_ids.mp distinct
  simp only [Chain.firstNodes, List.forall_mem_cons, List.not_mem_nil, false_implies, implies_true, and_true] at stored
  obtain ⟨axis, squeeze, length, shape⟩ := stored
  have axisNode : after.node? chain.axis = some (chain.axisNode name) := by
    rw [spliced.node?, if_neg axisApart, if_neg axisSqueeze.symm]
    exact axis
  have squeezeNode : after.node? chain.squeeze = some (chain.squeezeNode name) := by
    have known : before.node? chain.squeeze = _ := squeeze
    rw [spliced.node?, if_neg squeezeApart, if_pos rfl, known]
    rfl
  have lengthNode : after.node? chain.length = some (chain.lengthNode name outputType) := by
    rw [spliced.node?, if_neg lengthApart, if_neg squeezeLength]
    exact length
  have shapeNode : after.node? chain.shape = some (chain.shapeNode name outputType) := by
    rw [spliced.node?, if_neg shapeApart, if_neg squeezeShape]
    exact shape
  simp only [Chain.nodes, List.forall_mem_cons, List.not_mem_nil, false_implies, implies_true, and_true]
  exact ⟨axisNode, squeezeNode, lengthNode, shapeNode⟩

theorem edit_insertChain [EdgeIdSupply] {graph : Graph} (wf : graph.WellFormed) {id : NodeId} {source : Port}
    (present : graph.hasNode id) (fed : graph.producer? ⟨id, 0⟩ = some source) (name : String)
    (outputType : ElementType) :
    ∃ chain after, graph.edit (insertChain id name outputType) = (.ok chain.squeeze, after) ∧
      Decomposed graph after id name outputType chain := by
  obtain ⟨chain, inserted, created, extended⟩ := edit_createChain wf name outputType
  have distinct : chain.ids.Nodup := extended.nodup
  have fresh : ∀ other ∈ chain.ids, ¬ graph.hasNode other := fun other member missing =>
    extended.not_mem_ids missing member
  have apart : ∀ other ∈ chain.ids, other ≠ id := fun other member same => fresh other member (same ▸ present)
  have inside : ∀ other ∈ chain.ids, inserted.hasNode other := fun other member =>
    (extended.hasNode_iff other).mpr (.inr member)
  obtain ⟨_, squeezePresent, _, shapePresent⟩ := Chain.forall_mem_ids.mp inside
  obtain ⟨axisApart, squeezeApart, lengthApart, shapeApart⟩ := Chain.forall_mem_ids.mp apart
  obtain ⟨_, squeezeFresh, lengthFresh, shapeFresh⟩ := Chain.forall_mem_ids.mp fresh
  obtain ⟨_, ⟨squeezeLength, squeezeShape⟩, lengthShape⟩ := Chain.nodup_ids.mp distinct
  have stillFed : inserted.producer? ⟨id, 0⟩ = some source := by
    simp [extended.producer?, squeezeApart.symm, lengthApart.symm, fed]
  have free : inserted.producer? ⟨chain.shape, 0⟩ = none := by
    have before : graph.producer? ⟨chain.shape, 0⟩ = none := wf.producer?_eq_none shapeFresh
    simp [extended.producer?, squeezeShape.symm, lengthShape.symm, before]
  obtain ⟨after, ran, spliced⟩ := edit_splice extended.wellFormed
    (extended.hasNode present) stillFed shapePresent free squeezePresent squeezeApart name
  have producers := spliced.producer?
  simp only [extended.producer?] at producers
  refine ⟨chain, after, ?_, spliced.wellFormed, distinct, fresh, ?_, ?_,
    spliced.node?_chain distinct apart fun node member => extended.node?_added member, ?_, ?_, ?_, ?_, ?_, ?_⟩
  · rw [insertChain, edit_bind_ok created]
    exact edit_bind_ok ran _
  · intro other
    rw [spliced.hasNode_iff, extended.hasNode_iff, or_and_right]
    exact or_congr_right (and_iff_left_of_imp (apart other))
  · intro other known here
    have different : chain.squeeze ≠ other := fun same => squeezeFresh (same ▸ known)
    rw [spliced.node?, if_neg here, if_neg different, extended.node?_of_hasNode known]
  · intro port known here
    have otherwise : ∀ other ∈ chain.ids, port.node ≠ other := fun other member same =>
      fresh other member (same ▸ known)
    obtain ⟨_, notSqueeze, notLength, notShape⟩ := Chain.forall_mem_ids.mp otherwise
    simp [producers, here, Port.ext_iff, notSqueeze, notLength, notShape]
  · simp [producers, shapeApart, fed]
  · simp [producers, lengthApart, lengthShape, squeezeLength.symm, relocate, shapeApart]
  · simp [producers, squeezeApart, squeezeShape, relocate, lengthApart]
  · simp [producers, squeezeApart, squeezeShape, relocate, axisApart]
  · intro port member other
    simp only [Chain.inputs, List.mem_cons, List.not_mem_nil, or_false, not_or] at other
    obtain ⟨notShape, notLength, notSqueeze, notAxis⟩ := other
    have before : graph.producer? port = none := wf.producer?_eq_none (fresh port.node member)
    simp [producers, apart port.node member, notShape, notLength, notSqueeze, notAxis, before]

/-! ## Replacing a node -/

theorem outputType_eq_ok {graph : Graph} {node : Node} {expected : ElementType} :
    outputType graph node = .ok expected ↔
      node.outputType = some expected ∧ expected.isIndex ∧ (graph.producer? ⟨node.id, 0⟩).isSome := by
  unfold outputType
  cases declared : node.outputType with
  | none => simp
  | some declared =>
    rw [← isSome_inEdge?]
    simp only [Option.some.injEq]
    split
    next index =>
      constructor
      · intro impossible
        cases impossible
      · rintro ⟨rfl, isIndex, _⟩
        simp [isIndex] at index
    next index =>
      split
      next disconnected =>
        constructor
        · intro impossible
          cases impossible
        · intro ⟨_, _, connected⟩
          rw [Option.isNone_iff_eq_none] at disconnected
          simp [disconnected] at connected
      next connected =>
        constructor
        · intro same
          cases same
          simpa [Option.isSome_iff_ne_none] using And.intro index connected
        · rintro ⟨rfl, _, _⟩
          rfl

private theorem edit_requiredNode {graph : Graph} {id : NodeId} {node : Node} (found : graph.node? id = some node) :
    graph.edit (requiredNode id) = (.ok node, graph) := by
  rw [requiredNode, edit_bind_ok (edit_get graph), found]
  rfl

variable [EdgeIdSupply]

theorem edit_decompose_ok {graph : Graph} (wf : graph.WellFormed) {node : Node} {expected : ElementType}
    (found : graph.node? node.id = some node) (passes : outputType graph node = .ok expected) :
    ∃ chain after, graph.edit (decompose node.id) = (.ok chain.squeeze, after) ∧
      Decomposed graph after node.id node.softName expected chain := by
  obtain ⟨_, _, connected⟩ := outputType_eq_ok.mp passes
  obtain ⟨source, fed⟩ := Option.isSome_iff_exists.mp connected
  obtain ⟨chain, after, inserted, decomposed⟩ :=
    edit_insertChain wf (hasNode_of_node? found) fed node.softName expected
  have checked : graph.edit (liftM (outputType graph node) : Edit PassError ElementType) = (.ok expected, graph) := by
    rw [edit_liftM, passes]
  refine ⟨chain, after, ?_, decomposed⟩
  rw [decompose, edit_bind_ok (edit_requiredNode found), edit_bind_ok (edit_get graph), edit_bind_ok checked,
    edit_inPass, inserted]
  rfl

/-- A node that fails its check is refused before anything is changed. -/
theorem edit_decompose_error {graph : Graph} {node : Node} {error : PassError}
    (found : graph.node? node.id = some node) (fails : outputType graph node = .error error) :
    graph.edit (decompose node.id) = (.error error, graph) := by
  have checked : graph.edit (liftM (outputType graph node) : Edit PassError ElementType) = (.error error, graph) := by
    rw [edit_liftM, fails]
  rw [decompose, edit_bind_ok (edit_requiredNode found), edit_bind_ok (edit_get graph), edit_bind_error checked]

/-- A decomposition is refused without effect, or it is done. -/
theorem edit_decompose_cases {graph : Graph} (wf : graph.WellFormed) (id : NodeId) :
    (∃ error, graph.edit (decompose id) = (.error error, graph)) ∨
      ∃ node expected chain after, graph.node? id = some node ∧ outputType graph node = .ok expected ∧
        graph.edit (decompose id) = (.ok chain.squeeze, after) ∧
        Decomposed graph after id node.softName expected chain := by
  cases found : graph.node? id with
  | none =>
    have missing : graph.edit (requiredNode id) = (.error (.graph (.nodeNotFound id)), graph) := by
      rw [requiredNode, edit_bind_ok (edit_get graph), found]
      rfl
    exact .inl ⟨_, edit_bind_error missing _⟩
  | some node =>
    have own := wf.node_id found
    subst own
    cases passes : outputType graph node with
    | error error => exact .inl ⟨error, edit_decompose_error found passes⟩
    | ok expected =>
      obtain ⟨chain, after, ran, decomposed⟩ := edit_decompose_ok wf found passes
      exact .inr ⟨node, expected, chain, after, rfl, passes, ran, decomposed⟩

end OpGraph.RankDecomposition
