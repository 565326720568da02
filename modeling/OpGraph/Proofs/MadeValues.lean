import OpGraph.Proofs.RecursiveEvaluation
import OpGraph.Proofs.Squeezing

/-! Values that evaluation can work on. All of them fill their shapes, so no reshaping fails for a count. What remains
is the type: the list of a shape is put under the type that its node asks for, and under a type of doubles it is no
tensor that could be made. -/

namespace OpGraph

/-! ## Values that fill their shapes -/

/-- The shape is that of the value, and its data fill it. -/
structure Inferred.Filled (inferred : Inferred) : Prop where
  rank : inferred.shape.length < UInt64.size
  shape : ∀ {value}, inferred.value = some value → value.shape = inferred.shape
  filled : ∀ {value}, inferred.value = some value → value.shape.count? = some value.data.length

namespace Inferred.Filled

theorem ofShape {shape : Shape} (rank : shape.length < UInt64.size) : (Inferred.ofShape shape).Filled :=
  ⟨rank, nofun, nofun⟩

theorem ofTensor {value : Tensor} (rank : value.shape.length < UInt64.size)
    (filled : value.shape.count? = some value.data.length) : (Inferred.ofTensor value).Filled := by
  refine ⟨rank, ?_, ?_⟩
  all_goals
    rintro _ ⟨⟩
  · rfl
  · exact filled

theorem squeezeAt {data squeezed : Inferred} (filled : data.Filled) {id : NodeId} {positions : List Nat}
    (ran : Inference.squeezeAt id data positions = .ok squeezed) : squeezed.Filled := by
  obtain ⟨shape, made⟩ := Inference.reshaped_eq_ok (Inference.squeezeAt_eq_ok_iff.mp ran).2
  constructor
  · rw [shape]
    exact Nat.lt_of_le_of_lt (Inference.length_dropPositions_le _ _) filled.rank
  · intro value known
    exact (made value known).1.trans shape.symm
  · intro value known
    exact (Tensor.made_iff.mp (made value known).2).1

end Inferred.Filled

namespace Graph
open Inference

variable {graph : Graph} {known : Known} {id : NodeId} {node : Node} {inferred : Inferred}

def ConstantsMade (graph : Graph) : Prop :=
  ∀ node ∈ graph.nodeList, node.kind = .const → ∀ value ∈ node.value, value.Made

/-- The length of every list of dimensions is a number of 64 bits, as that of any list in memory is. -/
def RanksFit (graph : Graph) : Prop :=
  ∀ node ∈ graph.nodeList, (∀ shape ∈ node.shape, shape.length < UInt64.size) ∧
    ∀ value ∈ node.value, value.shape.length < UInt64.size

/-- The lists of shapes, and the ranks if they are asked for, get no type or one of integers. -/
def IntegersAt (graph : Graph) (kinds : List NodeKind) : Prop :=
  ∀ node ∈ graph.nodeList, node.kind ∈ kinds → node.outputType.all ElementType.isInteger

instance (graph : Graph) : Decidable graph.ConstantsMade :=
  inferInstanceAs (Decidable (∀ node ∈ graph.nodeList, node.kind = .const → ∀ value ∈ node.value, value.Made))

instance (graph : Graph) : Decidable graph.RanksFit :=
  inferInstanceAs (Decidable (∀ node ∈ graph.nodeList, (∀ shape ∈ node.shape, shape.length < UInt64.size) ∧
    ∀ value ∈ node.value, value.shape.length < UInt64.size))

instance (graph : Graph) (kinds : List NodeKind) : Decidable (graph.IntegersAt kinds) :=
  inferInstanceAs (Decidable (∀ node ∈ graph.nodeList, node.kind ∈ kinds → node.outputType.all ElementType.isInteger))

theorem WellFormed.mem_nodeList_of_node? (wf : graph.WellFormed) (found : graph.node? id = some node) :
    node ∈ graph.nodeList := by
  have own := wf.node_id found
  subst own
  exact wf.mem_nodeList.mpr found

theorem Yields.filled (yields : graph.Yields id inferred) (wf : graph.WellFormed) (constants : graph.ConstantsMade)
    (ranks : graph.RanksFit) : inferred.Filled := by
  induction yields with
  | parameter found _ static => exact .ofShape ((ranks _ (wf.mem_nodeList_of_node? found)).1 _ static)
  | const found kind stored =>
    have member := wf.mem_nodeList_of_node? found
    exact .ofTensor ((ranks _ member).2 _ stored) (Tensor.made_iff.mp (constants _ member kind _ stored)).1
  | result _ _ _ _ ih => exact ih
  | shapeOf _ _ _ _ ih => exact .ofTensor (show 1 < UInt64.size by decide) (Tensor.count?_ofShape ih.rank _)
  | rank _ _ _ _ scalar _ =>
    obtain ⟨rfl, counted, _⟩ := Tensor.make_eq_ok_iff.mp scalar
    exact .ofTensor (show 0 < UInt64.size by decide) counted
  | squeezeUnits _ _ _ _ _ removed ih => exact ih.squeezeAt removed
  | squeezeAxes _ _ _ _ _ _ _ _ removed ih _ => exact ih.squeezeAt removed

/-! ## Lists of shapes under a type of doubles -/

/-- The node lists a shape under a type of doubles, or is a result that passes such a list on. -/
inductive Mistyped (graph : Graph) : NodeId → Prop where
  | shapeOf {id : NodeId} {node : Node} (found : graph.node? id = some node) (kind : node.kind = .shapeOf)
      (doubles : ¬ node.outputType.all ElementType.isInteger) : Mistyped graph id
  | result {id source : NodeId} {node : Node} (found : graph.node? id = some node) (kind : node.kind = .result)
      (fed : graph.producer? ⟨id, 0⟩ = some ⟨source, 0⟩) (reads : Mistyped graph source) : Mistyped graph id

theorem mistyped_shapeOf_iff (found : graph.node? id = some node) (kind : node.kind = .shapeOf) :
    graph.Mistyped id ↔ ¬ node.outputType.all ElementType.isInteger := by
  refine ⟨fun mistyped => ?_, .shapeOf found kind⟩
  cases mistyped with
  | shapeOf again _ doubles => cases found.symm.trans again; exact doubles
  | result again other => cases found.symm.trans again; cases kind.symm.trans other

theorem mistyped_result_iff (found : graph.node? id = some node) (kind : node.kind = .result) {source : NodeId}
    (fed : graph.producer? ⟨id, 0⟩ = some ⟨source, 0⟩) : graph.Mistyped id ↔ graph.Mistyped source := by
  refine ⟨fun mistyped => ?_, .result found kind fed⟩
  cases mistyped with
  | shapeOf again other => cases found.symm.trans again; cases kind.symm.trans other
  | result _ _ same reads => cases fed.symm.trans same; exact reads

theorem not_mistyped (found : graph.node? id = some node) (other : node.kind ≠ .shapeOf ∧ node.kind ≠ .result) :
    ¬ graph.Mistyped id := by
  intro mistyped
  cases mistyped with
  | shapeOf again kind => cases found.symm.trans again; exact other.1 kind
  | result again kind => cases found.symm.trans again; exact other.2 kind

theorem not_mistyped_of_integersAt (wf : graph.WellFormed) {kinds : List NodeKind} (integers : graph.IntegersAt kinds)
    (listed : .shapeOf ∈ kinds) : ¬ graph.Mistyped id := by
  intro mistyped
  induction mistyped with
  | shapeOf found kind doubles => exact doubles (integers _ (wf.mem_nodeList_of_node? found) (kind ▸ listed))
  | result _ _ _ _ ih => exact ih

/-- Where no type is asked for, integers are meant. -/
theorem isInteger_getD (outputType : Option ElementType) :
    (outputType.getD .i64).isInteger = outputType.all ElementType.isInteger := by
  cases outputType <;> rfl

theorem Yields.made_iff (yields : graph.Yields id inferred) (wf : graph.WellFormed) (constants : graph.ConstantsMade)
    (ranks : graph.RanksFit) {value : Tensor} (known : inferred.value = some value) :
    value.Made ↔ ¬ graph.Mistyped id := by
  induction yields with
  | parameter => cases known
  | const found kind stored =>
    cases known
    have made := constants _ (wf.mem_nodeList_of_node? found) kind _ stored
    exact iff_of_true made (not_mistyped found (by simp [kind]))
  | result found kind fed _ ih => exact (ih known).trans (not_congr (mistyped_result_iff found kind fed).symm)
  | shapeOf found kind _ reads =>
    cases known
    rw [mistyped_shapeOf_iff found kind, not_not, ← isInteger_getD]
    exact Tensor.made_ofShape_iff (reads.filled wf constants ranks).rank _
  | rank found kind _ _ scalar =>
    cases known
    exact iff_of_true (Tensor.made_of_make scalar) (not_mistyped found (by simp [kind]))
  | squeezeUnits found kind _ _ _ removed =>
    exact iff_of_true (made_of_squeezeAt removed known) (not_mistyped found (by simp [kind]))
  | squeezeAxes found kind _ _ _ _ _ _ removed =>
    exact iff_of_true (made_of_squeezeAt removed known) (not_mistyped found (by simp [kind]))

/-- Where constants can be made, the value of every entry has the shape of the entry and data that fill it. It can be
made unless it is the list of a shape under a type of doubles, as it is or passed on by results; so all values can
be made exactly if every list of a shape gets a type of integers. -/
theorem infer_values_made_iff (wf : graph.WellFormed) (constants : graph.ConstantsMade) (ranks : graph.RanksFit)
    (ran : graph.infer = .ok known) :
    (∀ (port : Port) inferred value, known[port]? = some inferred → inferred.value = some value →
      inferred.shape = value.shape ∧ value.shape.elements = value.data.length ∧
        (Tensor.make value.elementType value.shape value.data = .ok value ↔ ¬ graph.Mistyped port.node)) ∧
    ((∀ (port : Port) inferred value, known[port]? = some inferred → inferred.value = some value →
        inferred.shape = value.shape ∧ Tensor.make value.elementType value.shape value.data = .ok value) ↔
      graph.IntegersAt [.shapeOf]) := by
  have lists := infer_lists wf ran
  have each : ∀ (port : Port) inferred value, known[port]? = some inferred → inferred.value = some value →
      inferred.shape = value.shape ∧ value.shape.elements = value.data.length ∧
        (Tensor.make value.elementType value.shape value.data = .ok value ↔ ¬ graph.Mistyped port.node) := by
    intro port inferred value stored present
    have yields := ((lists port inferred).mp stored).2
    have filled := yields.filled wf constants ranks
    have counted := Shape.count?_eq_some_iff.mp (filled.filled present)
    exact ⟨(filled.shape present).symm, counted.1.symm, yields.made_iff wf constants ranks present⟩
  refine ⟨each, fun made node member listed => ?_, fun integers port inferred value stored present => ?_⟩
  · have found := wf.mem_nodeList.mp member
    have kind := List.mem_singleton.mp listed
    obtain ⟨inferred, yields⟩ := ((exists_infer_iff wf).mp ⟨known, ran⟩).2 node.id (hasNode_of_node? found)
    have stored := (lists ⟨node.id, 0⟩ inferred).mpr ⟨rfl, yields⟩
    obtain ⟨source, data, _, _, rfl⟩ := yields.of_shapeOf found kind
    have typed := (each _ _ _ stored rfl).2.2.mp (made _ _ _ stored rfl).2
    rwa [mistyped_shapeOf_iff found kind, not_not] at typed
  · obtain ⟨shape, _, makes⟩ := each port inferred value stored present
    exact ⟨shape, makes.mpr (not_mistyped_of_integersAt wf integers List.mem_cons_self)⟩

/-- A shape listed as doubles and passed on by a result, beside a constant whose last axis is squeezed. -/
def listedAsDoubles : Graph := Graph.empty.history
  [.addNode (.parameter "x" (some [4, 1])), .addNode { id := "s", kind := .shapeOf, outputType := some .f32 },
    .addNode (.result "z"), .addNode (.const "c" ⟨.u8, [2, 1], .int [7, 9]⟩), .addNode { id := "q", kind := .squeeze },
    .connect ⟨"x", 0⟩ ⟨"s", 0⟩, .connect ⟨"s", 0⟩ ⟨"z", 0⟩, .connect ⟨"c", 0⟩ ⟨"q", 0⟩]

theorem infer_values_made_iff_listedAsDoubles :
    let graph := listedAsDoubles
    let list : Tensor := ⟨.f32, [2], .int [4, 1]⟩
    graph.WellFormed ∧ graph.ConstantsMade ∧ graph.RanksFit ∧ ∃ known, graph.infer = .ok known ∧
      known[(⟨"z", 0⟩ : Port)]? = some (.ofTensor list) ∧ list.shape.elements = list.data.length ∧ graph.Mistyped "z" ∧
      known[(⟨"q", 0⟩ : Port)]? = some (.ofTensor ⟨.u8, [2], .int [7, 9]⟩) ∧ ¬ graph.Mistyped "q" ∧
      ¬ graph.IntegersAt [.shapeOf] := by
  intro graph list
  have wf : graph.WellFormed := wellFormed_empty.history _
  have constants : graph.ConstantsMade := by decide +kernel
  have ranks : graph.RanksFit := by decide +kernel
  have computed : graph.infer.isOk ∧
      (graph.infer.toOption >>= fun known => known[(⟨"z", 0⟩ : Port)]?) = some (.ofTensor list) ∧
      (graph.infer.toOption >>= fun known => known[(⟨"q", 0⟩ : Port)]?) = some (.ofTensor ⟨.u8, [2], .int [7, 9]⟩) := by
    decide +kernel
  obtain ⟨evaluates, listed, squeezed⟩ := computed
  obtain ⟨known, ran⟩ := isOk_iff.mp evaluates
  rw [ran] at listed squeezed
  obtain ⟨each, all⟩ := infer_values_made_iff wf constants ranks ran
  obtain ⟨_, filled, makes⟩ := each _ _ _ listed rfl
  have refused : Tensor.make .f32 [2] (.int [4, 1]) ≠ .ok list := by decide +kernel
  have made := (each _ _ _ squeezed rfl).2.2.mp (by decide +kernel)
  refine ⟨wf, constants, ranks, known, ran, listed, filled, not_not.mp fun typed => refused (makes.mpr typed),
    squeezed, made, ?_⟩
  exact fun integers => refused (all.mpr integers _ _ _ listed rfl).2

/-! ## What evaluation can fail on -/

theorem input_ne_tensor {port : UInt64} {error : TensorError} :
    input graph known node port ≠ .error (.tensor error) := by
  unfold input
  split <;> simp

theorem squeezeAt_ne_tensor {data : Inferred} {positions : List Nat}
    (made : ∀ value, data.value = some value → value.shape = data.shape ∧ value.Made) {error : TensorError} :
    squeezeAt id data positions ≠ .error (.tensor error) := by
  intro failed
  rw [squeezeAt_eq_bind] at failed
  rcases bind_eq_error.mp failed with refused | ⟨_, checked, failed⟩
  · obtain ⟨index, _, refused⟩ := exists_of_forM_eq_error refused
    unfold checkUnit at refused
    split at refused
    next => split at refused <;> cases refused
    next => cases refused
  · have units := forM_checkUnit_eq_ok.mp checked
    unfold reshaped at failed
    split at failed
    next => cases failed
    next value known =>
      obtain ⟨shape, made⟩ := made value known
      rw [made.reshape ((count?_dropPositions units).trans (congrArg _ shape.symm))] at failed
      cases failed

theorem position_ne_tensor {rank : Nat} {axis : Int64} {error : TensorError} :
    position id rank axis ≠ .error (.tensor error) := by
  simp only [position]
  generalize (if axis < 0 then axis + Int64.ofNat rank else axis) = index
  split <;> simp

theorem squeeze_ne_tensor
    (made : ∀ data value, input graph known node 0 = .ok data → data.value = some value →
      value.shape = data.shape ∧ value.Made) {error : TensorError} :
    squeeze graph known node ≠ .error (.tensor error) := by
  intro failed
  rcases bind_eq_error.mp failed with unread | ⟨data, read, failed⟩
  · exact input_ne_tensor unread
  have removes {positions : List Nat} : squeezeAt node.id data positions ≠ .error (.tensor error) :=
    squeezeAt_ne_tensor fun value => made data value read
  split at failed
  next =>
    rcases bind_eq_error.mp failed with unread | ⟨axes, _, failed⟩
    · exact input_ne_tensor unread
    split at failed
    next => cases failed
    next =>
      rcases bind_eq_error.mp failed with unnamed | ⟨positions, _, failed⟩
      · obtain ⟨axis, _, refused⟩ := exists_of_mapM_eq_error unnamed
        exact position_ne_tensor refused
      · exact removes failed
  next => exact removes failed

/-- The rule of a node does not fail on a tensor if those that it reads could be made. -/
theorem inferNode_ne_tensor
    (made : ∀ port data value, input graph known node port = .ok data → data.value = some value →
      value.shape = data.shape ∧ value.Made)
    (integers : node.kind = .rank → node.outputType.all ElementType.isInteger) {error : TensorError} :
    inferNode graph known node ≠ .error (.tensor error) := by
  intro failed
  unfold inferNode at failed
  cases kind : node.kind with
  | parameter | const =>
    simp only [kind] at failed
    split at failed <;> cases failed
  | result =>
    simp only [kind] at failed
    exact input_ne_tensor failed
  | shapeOf =>
    simp only [kind] at failed
    rcases bind_eq_error.mp failed with unread | ⟨_, _, impossible⟩
    · exact input_ne_tensor unread
    · cases impossible
  | rank =>
    simp only [kind] at failed
    rcases bind_eq_error.mp failed with unread | ⟨data, _, failed⟩
    · exact input_ne_tensor unread
    · have single := Tensor.made_ofShape_singleton (UInt64.ofNat data.shape.length) (isInteger_getD _ ▸ integers kind)
      rw [single.reshape (show Shape.count? [] = Shape.count? [1] from rfl)] at failed
      cases failed
  | squeeze =>
    simp only [kind] at failed
    exact squeeze_ne_tensor (made 0) failed
  | other name =>
    simp only [kind] at failed
    cases failed

/-- Where constants can be made, and lists of shapes and ranks get types of integers, evaluation fails on no tensor. -/
theorem infer_ne_tensor (wf : graph.WellFormed) (constants : graph.ConstantsMade) (ranks : graph.RanksFit)
    (integers : graph.IntegersAt [.shapeOf, .rank]) (error : TensorError) : graph.infer ≠ .error (.tensor error) := by
  intro failed
  rcases exists_of_infer_eq_error wf failed with ⟨circle, impossible⟩ | ⟨node, known, found, sound, failed⟩
  · cases impossible
  · refine inferNode_ne_tensor (fun port data value read present => ?_) (fun kind => ?_) failed
    · obtain ⟨source, _, yields⟩ := sound.input read
      have typed : ¬ graph.Mistyped source := not_mistyped_of_integersAt wf integers List.mem_cons_self
      exact ⟨(yields.filled wf constants ranks).shape present, (yields.made_iff wf constants ranks present).mpr typed⟩
    · exact integers node (wf.mem_nodeList.mpr found) (by simp [kind])

/-- No elements, of which an axis is squeezed, and the shape and the rank of what is left. -/
def emptied : Graph := Graph.empty.history
  [.addNode (.const "c" ⟨.f64, [0, 1, 0xffffffffffffffff, 2], .float []⟩), .addNode (.const "axes" (.ofInts [1])),
    .addNode { id := "q", kind := .squeeze }, .addNode { id := "s", kind := .shapeOf, outputType := some .u8 },
    .addNode { id := "r", kind := .rank }, .connect ⟨"c", 0⟩ ⟨"q", 0⟩, .connect ⟨"axes", 0⟩ ⟨"q", 1⟩,
    .connect ⟨"q", 0⟩ ⟨"s", 0⟩, .connect ⟨"q", 0⟩ ⟨"r", 0⟩]

/-- In another order the dimensions that are left could not be counted. -/
theorem infer_ne_tensor_emptied :
    let graph := emptied
    graph.WellFormed ∧ graph.ConstantsMade ∧ graph.RanksFit ∧ graph.IntegersAt [.shapeOf, .rank] ∧
      Shape.count? [0xffffffffffffffff, 2, 0] = none ∧
      graph.infer ≠ .error (.tensor (.tooLarge [0, 0xffffffffffffffff, 2])) := by
  intro graph
  have wf : graph.WellFormed := wellFormed_empty.history _
  have constants : graph.ConstantsMade := by decide +kernel
  have ranks : graph.RanksFit := by decide +kernel
  have integers : graph.IntegersAt [.shapeOf, .rank] := by decide +kernel
  exact ⟨wf, constants, ranks, integers, by decide +kernel, infer_ne_tensor wf constants ranks integers _⟩

end Graph
end OpGraph
