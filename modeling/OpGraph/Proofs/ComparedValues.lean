import OpGraph.Proofs.Comparison
import OpGraph.Proofs.Evaluation
import OpGraph.Proofs.Squeezing

/-! Whatever a rule of evaluation reads, comparison has compared. Along the isomorphism that a silent
comparison leaves behind, producers that evaluate alike give consumers that evaluate alike, and so on
up to the compared node. -/

namespace OpGraph

/-! ## Tensors -/

namespace Tensor

theorem numEq_iff {first second : Tensor} : first.numEq second ↔
    first.elementType = second.elementType ∧ first.shape = second.shape ∧ first.data.numEq second.data := by
  simp [numEq, and_assoc]

theorem numEq_ofShape (shape : Shape) (elementType : ElementType) :
    (ofShape shape elementType).numEq (ofShape shape elementType) :=
  numEq_iff.mpr ⟨rfl, rfl, beq_self_eq_true _⟩

/-- Integers have no sign of zero that could tell equal ones apart. -/
theorem ints?_of_numEq {first second : Tensor} (same : first.numEq second) : first.ints? = second.ints? := by
  obtain ⟨elementType, shape, data⟩ := first
  obtain ⟨otherType, otherShape, otherData⟩ := second
  obtain ⟨_, _, same⟩ := numEq_iff.mp same
  cases data with
  | int values =>
    cases otherData with
    | int others => exact congrArg some (beq_iff_eq.mp same)
    | float others => cases same
  | float values =>
    cases otherData with
    | int others => cases same
    | float others => rfl

theorem reshape_numEq {first second left right : Tensor} {shape : Shape} (same : first.numEq second)
    (ran : first.reshape shape = .ok left) (other : second.reshape shape = .ok right) : left.numEq right := by
  obtain ⟨elementType, _, data⟩ := numEq_iff.mp same
  rw [(make_eq_ok_iff.mp ran).1, (make_eq_ok_iff.mp other).1]
  exact numEq_iff.mpr ⟨elementType, rfl, data⟩

end Tensor

/-! ## Rules -/

/-- The same shape, and values that comparison takes for equal. -/
structure Inferred.Similar (first second : Inferred) : Prop where
  shape : first.shape = second.shape
  value : Graph.optionEqBy Tensor.numEq first.value second.value

theorem Inferred.Similar.ofTensor {first second : Tensor} (same : first.numEq second) :
    (Inferred.ofTensor first).Similar (.ofTensor second) :=
  ⟨(Tensor.numEq_iff.mp same).2.1, same⟩

namespace Inference
open OpGraph.Graph

variable {graph reference : Graph} {known expectedKnown : Known} {node expected : Node} {data expectedData : Inferred}

/-- The node is named in errors only. -/
theorem position_eq_ok {id : NodeId} {rank : Nat} {axis : Int64} {found : Nat} (other : NodeId)
    (ran : position id rank axis = .ok found) : position other rank axis = .ok found := by
  simp only [position] at ran ⊢
  generalize (if axis < 0 then axis + Int64.ofNat rank else axis) = index at ran ⊢
  split at ran
  next => cases ran
  next inside => rw [if_neg inside]; exact ran

theorem mapM_position_eq_ok {id : NodeId} {rank : Nat} {axes : List Int64} {positions : List Nat} (other : NodeId)
    (ran : axes.mapM (position id rank) = .ok positions) : axes.mapM (position other rank) = .ok positions :=
  mapM_eq_ok.mpr ((mapM_eq_ok.mp ran).imp fun _ _ => position_eq_ok other)

theorem reshaped_similar {shape : Shape} {moved expectedMoved : Inferred} (similar : data.Similar expectedData)
    (ran : reshaped data shape = .ok moved) (expectedRan : reshaped expectedData shape = .ok expectedMoved) :
    moved.Similar expectedMoved := by
  obtain ⟨_, value⟩ := data
  obtain ⟨_, expectedValue⟩ := expectedData
  obtain ⟨_, equal⟩ := similar
  unfold reshaped at ran expectedRan
  cases value with
  | none =>
    cases expectedValue with
    | none => cases ran; cases expectedRan; exact ⟨rfl, rfl⟩
    | some tensor => cases equal
  | some tensor =>
    cases expectedValue with
    | none => cases equal
    | some expectedTensor =>
      simp only at ran expectedRan
      split at ran <;> cases ran
      next left leftMade =>
        split at expectedRan <;> cases expectedRan
        next right rightMade => exact ⟨rfl, Tensor.reshape_numEq equal leftMade rightMade⟩

theorem squeezeAt_similar {id other : NodeId} {positions : List Nat} {squeezed expectedSqueezed : Inferred}
    (similar : data.Similar expectedData) (ran : squeezeAt id data positions = .ok squeezed)
    (expectedRan : squeezeAt other expectedData positions = .ok expectedSqueezed) :
    squeezed.Similar expectedSqueezed := by
  obtain ⟨_, moved⟩ := squeezeAt_eq_ok_iff.mp ran
  obtain ⟨_, expectedMoved⟩ := squeezeAt_eq_ok_iff.mp expectedRan
  rw [← similar.shape] at expectedMoved
  exact reshaped_similar similar moved expectedMoved

structure ReadsAlike (graph reference : Graph) (known expectedKnown : Known) (node expected : Node) : Prop where
  inputs : ∀ {port data expectedData}, input graph known node port = .ok data →
    input reference expectedKnown expected port = .ok expectedData → data.Similar expectedData
  axes : (graph.producer? ⟨node.id, 1⟩).isSome = (reference.producer? ⟨expected.id, 1⟩).isSome

theorem ReadsAlike.squeeze_similar (alike : ReadsAlike graph reference known expectedKnown node expected)
    (ran : squeeze graph known node = .ok data)
    (expectedRan : squeeze reference expectedKnown expected = .ok expectedData) : data.Similar expectedData := by
  obtain ⟨first, read, ran⟩ := bind_eq_ok.mp ran
  obtain ⟨expectedFirst, expectedRead, expectedRan⟩ := bind_eq_ok.mp expectedRan
  have similar := alike.inputs read expectedRead
  rw [isSome_inEdge?] at ran expectedRan
  rw [← alike.axes] at expectedRan
  split at ran
  next connected =>
    rw [if_pos connected] at expectedRan
    obtain ⟨second, read, ran⟩ := bind_eq_ok.mp ran
    obtain ⟨expectedSecond, expectedRead, expectedRan⟩ := bind_eq_ok.mp expectedRan
    have same : second.value >>= Tensor.ints? = expectedSecond.value >>= Tensor.ints? := by
      have equal := (alike.inputs read expectedRead).value
      generalize second.value = value at equal ⊢
      generalize expectedSecond.value = expectedValue at equal ⊢
      cases value <;> cases expectedValue <;> try cases equal
      · rfl
      · exact Tensor.ints?_of_numEq equal
    rw [← same] at expectedRan
    split at ran <;> try cases ran
    next axes integers =>
      rw [integers] at expectedRan
      obtain ⟨positions, named, ran⟩ := bind_eq_ok.mp ran
      obtain ⟨expectedPositions, expectedNamed, expectedRan⟩ := bind_eq_ok.mp expectedRan
      rw [← similar.shape] at expectedNamed
      have equal := (mapM_position_eq_ok node.id expectedNamed).symm.trans named
      cases equal
      exact squeezeAt_similar similar ran expectedRan
  next unconnected =>
    rw [if_neg unconnected, ← similar.shape] at expectedRan
    exact squeezeAt_similar similar ran expectedRan

/-- All that the rule of a node reads in it is compared where attributes are. -/
theorem ReadsAlike.inferNode_similar {options : CompareOptions} (agree : NodesAgree options node expected)
    (checked : options.checkAttributes) (alike : ReadsAlike graph reference known expectedKnown node expected)
    (ran : inferNode graph known node = .ok data)
    (expectedRan : inferNode reference expectedKnown expected = .ok expectedData) : data.Similar expectedData := by
  have value := agree.value (.inr checked)
  unfold inferNode at ran expectedRan
  rw [← agree.kind, ← agree.shape checked, ← agree.outputType checked] at expectedRan
  cases kind : node.kind with
  | parameter =>
    simp only [kind] at ran expectedRan
    cases static : node.shape with
    | none => simp [static] at ran
    | some shape =>
      rw [static] at ran expectedRan
      cases ran
      cases expectedRan
      exact ⟨rfl, rfl⟩
  | const =>
    simp only [kind] at ran expectedRan
    split at ran <;> cases ran
    next tensor stored =>
      split at expectedRan <;> cases expectedRan
      next expectedTensor expectedStored =>
        rw [stored, expectedStored] at value
        exact .ofTensor value
  | result =>
    simp only [kind] at ran expectedRan
    exact alike.inputs ran expectedRan
  | shapeOf =>
    simp only [kind] at ran expectedRan
    obtain ⟨first, read, ran⟩ := bind_eq_ok.mp ran
    obtain ⟨expectedFirst, expectedRead, expectedRan⟩ := bind_eq_ok.mp expectedRan
    cases ran
    cases expectedRan
    rw [(alike.inputs read expectedRead).shape]
    exact .ofTensor (Tensor.numEq_ofShape _ _)
  | rank =>
    simp only [kind] at ran expectedRan
    obtain ⟨first, read, ran⟩ := bind_eq_ok.mp ran
    obtain ⟨expectedFirst, expectedRead, expectedRan⟩ := bind_eq_ok.mp expectedRan
    rw [← (alike.inputs read expectedRead).shape] at expectedRan
    split at ran <;> cases ran
    next rank made =>
      split at expectedRan <;> cases expectedRan
      next expectedRank expectedMade =>
        exact .ofTensor (Tensor.reshape_numEq (Tensor.numEq_ofShape _ _) made expectedMade)
  | squeeze =>
    simp only [kind] at ran expectedRan
    exact alike.squeeze_similar ran expectedRan
  | other name => simp [kind] at ran

end Inference

/-! ## Along the isomorphism -/

namespace Graph
open Inference

variable {graph reference : Graph} {last : NodeId} {options : CompareOptions} {counterpart : NodeId → NodeId}
  {known expectedKnown : Known}

theorem ConeIsomorphism.isSome_producer? (iso : ConeIsomorphism graph reference last options counterpart)
    (wf : graph.WellFormed) (referenceWf : reference.WellFormed) {id : NodeId} (reaches : graph.Reaches id last)
    (index : UInt64) : (graph.producer? ⟨id, index⟩).isSome = (reference.producer? ⟨counterpart id, index⟩).isSome := by
  rw [Bool.eq_iff_iff, wf.isSome_producer?, referenceWf.isSome_producer?, iso.inputs reaches]

/-- What leads to the compared node evaluates as its counterpart does. -/
theorem ConeIsomorphism.similar (iso : ConeIsomorphism graph reference last options counterpart)
    (wf : graph.WellFormed) (referenceWf : reference.WellFormed) (checked : options.checkAttributes)
    (acyclic : graph.Acyclic) (solves : graph.Solves known) (expectedSolves : reference.Solves expectedKnown)
    {id : NodeId} (reaches : graph.Reaches id last) :
    ∃ data expectedData, known[(⟨id, 0⟩ : Port)]? = some data ∧
      expectedKnown[(⟨counterpart id, 0⟩ : Port)]? = some expectedData ∧ data.Similar expectedData := by
  -- A producer also leads to the compared node, so the induction stays in the cone.
  induction id using (acyclic.wellFounded wf).induction with
  | _ id ih =>
    obtain ⟨node, expected, found, expectedFound, agree⟩ := iso.nodes reaches
    obtain ⟨data, stored, ran⟩ := solves.rule (hasNode_of_node? found) found
    obtain ⟨expectedData, expectedStored, expectedRan⟩ :=
      expectedSolves.rule (hasNode_of_node? expectedFound) expectedFound
    refine ⟨data, expectedData, stored, expectedStored, ?_⟩
    have alike : ReadsAlike graph reference known expectedKnown node expected := by
      constructor
      · intro port data expectedData read expectedRead
        obtain ⟨source, fed, stored⟩ := input_eq_ok.mp read
        obtain ⟨expectedSource, expectedFed, expectedStored⟩ := input_eq_ok.mp expectedRead
        rw [wf.node_id found] at fed
        rw [referenceWf.node_id expectedFound, iso.producers reaches fed] at expectedFed
        cases expectedFed
        have feeds := wf.feeds_of_producer? fed
        obtain ⟨value, expectedValue, present, expectedPresent, similar⟩ := ih source.node feeds (.head feeds reaches)
        have output : source = ⟨source.node, 0⟩ := Port.ext rfl (solves.support stored).2
        rw [output] at stored expectedStored
        cases stored.symm.trans present
        cases expectedStored.symm.trans expectedPresent
        exact similar
      · rw [wf.node_id found, referenceWf.node_id expectedFound]
        exact iso.isSome_producer? wf referenceWf reaches 1
    exact alike.inferNode_similar agree checked ran expectedRan

/-- Where the comparison of two graphs with their attributes is silent and both can be evaluated, the
compared node has the same shape and the same value in both. -/
theorem infer_similar_of_no_differences (wf : graph.WellFormed) (referenceWf : reference.WellFormed)
    (checked : options.checkAttributes) (same : graph.differences reference last options = [])
    (ran : graph.infer = .ok known) (expectedRan : reference.infer = .ok expectedKnown) :
    ∃ data expectedData, known[(⟨last, 0⟩ : Port)]? = some data ∧
      expectedKnown[(⟨last, 0⟩ : Port)]? = some expectedData ∧
      data.shape = expectedData.shape ∧ optionEqBy Tensor.numEq data.value expectedData.value := by
  obtain ⟨present, expectedPresent, silent⟩ := differences_eq_nil.mp same
  obtain ⟨counterpart, iso⟩ := (Pairing.walk_silent_iff wf referenceWf present expectedPresent).mp silent
  obtain ⟨sorted, solves⟩ := (infer_eq_ok_iff wf).mp ran
  obtain ⟨_, expectedSolves⟩ := (infer_eq_ok_iff referenceWf).mp expectedRan
  have acyclic := (exists_topologicalOrder_iff wf).mp sorted
  obtain ⟨data, expectedData, stored, expectedStored, similar⟩ :=
    iso.similar wf referenceWf checked acyclic solves expectedSolves .refl
  rw [iso.fixes] at expectedStored
  exact ⟨data, expectedData, stored, expectedStored, similar.shape, similar.value⟩

/-- A list of one number made a scalar, with a remark at the operation. -/
def scalarOf (const squeeze : NodeId) (value : Binary64) (remark : String) : Graph := Graph.empty.history
  [.addNode (.const const ⟨.f64, [1], .float [value]⟩), .addNode (.result "z"),
    .addNode (Node.withAttribute { id := squeeze, kind := .squeeze } "remark" (.string remark)),
    .connect ⟨squeeze, 0⟩ ⟨"z", 0⟩, .connect ⟨const, 0⟩ ⟨squeeze, 0⟩]

/-- A zero and a negative zero are told apart by nothing that is compared. -/
theorem infer_similar_of_no_differences_zeros :
    let graph := scalarOf "a" "b" .zero "of a file"
    let reference := scalarOf "q" "p" (.negate .zero) "of a test"
    let options : CompareOptions := { checkAttributes := true, ignored := ["remark"] }
    graph.WellFormed ∧ reference.WellFormed ∧ graph.differences reference "z" options = [] ∧
      ∃ known expectedKnown data expectedData, graph.infer = .ok known ∧ reference.infer = .ok expectedKnown ∧
        known[(⟨"z", 0⟩ : Port)]? = some data ∧ expectedKnown[(⟨"z", 0⟩ : Port)]? = some expectedData ∧
        data.shape = expectedData.shape ∧ optionEqBy Tensor.numEq data.value expectedData.value := by
  intro graph reference options
  have wf : graph.WellFormed := wellFormed_empty.history _
  have referenceWf : reference.WellFormed := wellFormed_empty.history _
  have computed : graph.differences reference "z" options = [] ∧ graph.infer.isOk ∧ reference.infer.isOk := by
    decide +kernel
  obtain ⟨same, evaluates, expectedEvaluates⟩ := computed
  obtain ⟨known, ran⟩ := isOk_iff.mp evaluates
  obtain ⟨expectedKnown, expectedRan⟩ := isOk_iff.mp expectedEvaluates
  obtain ⟨data, expectedData, stored, expectedStored, similar⟩ :=
    infer_similar_of_no_differences wf referenceWf rfl same ran expectedRan
  exact ⟨wf, referenceWf, same, known, expectedKnown, data, expectedData, ran, expectedRan, stored,
    expectedStored, similar⟩

end Graph
end OpGraph
