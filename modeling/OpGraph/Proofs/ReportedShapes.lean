import OpGraph.Proofs.RecursiveEvaluation

/-! Shapes as values. A dimension has 64 bits without a sign and a reported one 64 bits with a sign, so those from
`2 ^ 63` on are reported below 0, where a squeeze takes them for axes that count from the end. -/

namespace OpGraph

namespace Shape

def reported (dimension : UInt64) : Int :=
  if dimension.toNat < 2 ^ 63 then dimension.toNat else dimension.toNat - 2 ^ 64

def Signed (shape : Shape) : Prop := ∀ dimension ∈ shape, dimension.toNat < 2 ^ 63

theorem toInt_toInt64 (dimension : UInt64) : dimension.toInt64.toInt = reported dimension := by
  rw [← Int64.toInt_toBitVec, UInt64.toBitVec_toInt64, BitVec.toInt_eq_toNat_cond, UInt64.toNat_toBitVec, reported]
  split <;> split <;> omega

theorem reported_eq_iff {dimension : UInt64} : reported dimension = dimension.toNat ↔ dimension.toNat < 2 ^ 63 := by
  unfold reported
  split <;> omega

theorem reported_neg_iff {dimension : UInt64} : reported dimension < 0 ↔ ¬ dimension.toNat < 2 ^ 63 := by
  have bound := dimension.toNat_lt
  unfold reported
  split <;> omega

end Shape

namespace Tensor

theorem ints?_ofShape (shape : Shape) (elementType : ElementType) :
    (ofShape shape elementType).ints? = some (shape.map UInt64.toInt64) := rfl

end Tensor

namespace Graph

variable {graph : Graph} {known : Known} {id : NodeId} {node : Node}

/-- What is reported of a shape is a list with one entry for each of its dimensions, in their order. An entry is the
dimension if this is below `2 ^ 63`, and else is negative; so the list is that of the dimensions, and none of
its entries is negative, exactly if all dimensions are below `2 ^ 63`. -/
theorem infer_reports_shapes (wf : graph.WellFormed) (ran : graph.infer = .ok known)
    (found : graph.node? id = some node) (kind : node.kind = .shapeOf) :
    ∃ source data value values, graph.producer? ⟨id, 0⟩ = some source ∧ known[source]? = some data ∧
      known[(⟨id, 0⟩ : Port)]? = some (.ofTensor value) ∧ value.shape = [UInt64.ofNat data.shape.length] ∧
      value.ints? = some values ∧
      values.map Int64.toInt = data.shape.map Shape.reported ∧
      (values.map Int64.toInt = data.shape.map (fun dimension => (dimension.toNat : Int)) ↔ data.shape.Signed) ∧
      ((∀ value ∈ values, 0 ≤ value.toInt) ↔ data.shape.Signed) := by
  obtain ⟨inferred, yields⟩ := ((exists_infer_iff wf).mp ⟨known, ran⟩).2 id (hasNode_of_node? found)
  obtain ⟨source, data, fed, reads, rfl⟩ := yields.of_shapeOf found kind
  have stored := (infer_lists wf ran ⟨source, 0⟩ data).mpr ⟨rfl, reads⟩
  have listed := (infer_lists wf ran ⟨id, 0⟩ _).mpr ⟨rfl, yields⟩
  have entries : (data.shape.map UInt64.toInt64).map Int64.toInt = data.shape.map Shape.reported := by
    rw [List.map_map]
    exact List.map_congr_left fun dimension _ => Shape.toInt_toInt64 dimension
  refine ⟨⟨source, 0⟩, data, _, _, fed, stored, listed, rfl, Tensor.ints?_ofShape _ _, entries, ?_, ?_⟩
  · rw [entries, List.map_inj_left]
    exact forall₂_congr fun dimension _ => Shape.reported_eq_iff
  · rw [List.forall_mem_map]
    refine forall₂_congr fun dimension _ => ?_
    rw [Shape.toInt_toInt64, ← not_lt, Shape.reported_neg_iff, not_not]

/-- The largest dimension is reported as -1, so a squeeze that reads the report removes the last axis of a shape that
has two of them. -/
def misread : Graph := Graph.empty.history
  [.addNode (.parameter "d" (some [0xffffffffffffffff])), .addNode { id := "s", kind := .shapeOf },
    .addNode (.parameter "x" (some [3, 1])), .addNode { id := "q", kind := .squeeze },
    .connect ⟨"d", 0⟩ ⟨"s", 0⟩, .connect ⟨"x", 0⟩ ⟨"q", 0⟩, .connect ⟨"s", 0⟩ ⟨"q", 1⟩]

theorem infer_reports_shapes_misread :
    misread.WellFormed ∧ ∃ known value values, misread.infer = .ok known ∧
      known[(⟨"d", 0⟩ : Port)]? = some (.ofShape [0xffffffffffffffff]) ∧
      known[(⟨"s", 0⟩ : Port)]? = some (.ofTensor value) ∧ value.ints? = some values ∧
      values.map Int64.toInt ≠ [0xffffffffffffffff] ∧ ¬ (∀ value ∈ values, 0 ≤ value.toInt) ∧
      known[(⟨"q", 0⟩ : Port)]? = some (.ofShape [3]) := by
  have wf : misread.WellFormed := wellFormed_empty.history _
  have computed : misread.infer.isOk ∧ misread.node? "s" = some { id := "s", kind := .shapeOf } ∧
      misread.producer? ⟨"s", 0⟩ = some ⟨"d", 0⟩ ∧
      (misread.infer.toOption >>= fun known => known[(⟨"d", 0⟩ : Port)]?) = some (.ofShape [0xffffffffffffffff]) ∧
      (misread.infer.toOption >>= fun known => known[(⟨"q", 0⟩ : Port)]?) = some (.ofShape [3]) := by
    decide +kernel
  obtain ⟨evaluates, found, fed, given, squeezed⟩ := computed
  obtain ⟨known, ran⟩ := isOk_iff.mp evaluates
  rw [ran] at given squeezed
  obtain ⟨source, data, value, values, again, stored, listed, _, ints, _, faithful, positive⟩ :=
    infer_reports_shapes wf ran found rfl
  cases fed.symm.trans again
  cases given.symm.trans stored
  have large : ¬ Shape.Signed [0xffffffffffffffff] := fun signed => absurd (signed _ List.mem_cons_self) (by decide)
  exact ⟨wf, known, value, values, ran, given, listed, ints, mt faithful.mp large, mt positive.mp large, squeezed⟩

end Graph
end OpGraph
