import OpGraph.Proofs.Decomposition
import OpGraph.Proofs.Evaluation

/-! A chain computes what the rank computed. The values of the other nodes solve the rules of the new graph
as they are, whatever feeds what, so nothing has to be known about the order of evaluation. -/

namespace OpGraph

/-- The one element of a list, as a scalar. -/
theorem Tensor.reshape_ofShape_singleton {outputType : ElementType} (index : outputType.isIndex) (dimension : UInt64) :
    (Tensor.ofShape [dimension] outputType).reshape [] = .ok ⟨outputType, [], .int [dimension.toInt64]⟩ := by
  cases outputType <;> first | rfl | cases index

namespace Inference

theorem squeezeAt_ofShape_singleton {outputType : ElementType} (index : outputType.isIndex) (id : NodeId)
    (dimension : UInt64) : squeezeAt id (.ofTensor (.ofShape [dimension] outputType)) [0] =
      .ok (.ofTensor ⟨outputType, [], .int [dimension.toInt64]⟩) := by
  cases outputType <;> first | rfl | cases index

def rankOf (shape : Shape) (outputType : ElementType) : Inferred :=
  .ofTensor ⟨outputType, [], .int [(UInt64.ofNat shape.length).toInt64]⟩

theorem inferNode_rank {graph : Graph} {known : Known} {node : Node} {outputType : ElementType} {inferred : Inferred}
    (kind : node.kind = .rank) (declared : node.outputType = some outputType) (index : outputType.isIndex)
    (holds : inferNode graph known node = .ok inferred) :
    ∃ data, input graph known node 0 = .ok data ∧ inferred = rankOf data.shape outputType := by
  simp only [inferNode, kind, declared, Option.getD_some, Tensor.reshape_ofShape_singleton index] at holds
  obtain ⟨data, read, same⟩ := bind_eq_ok.mp holds
  cases same
  exact ⟨data, read, rfl⟩

def shapeOf (shape : Shape) (outputType : ElementType) : Inferred := .ofTensor (.ofShape shape outputType)

theorem inferNode_shapeOf {graph : Graph} {known : Known} {node : Node} {outputType : ElementType} {data : Inferred}
    (kind : node.kind = .shapeOf) (declared : node.outputType = some outputType)
    (read : input graph known node 0 = .ok data) :
    inferNode graph known node = .ok (shapeOf data.shape outputType) := by
  simp only [inferNode, kind, declared, Option.getD_some]
  exact bind_eq_ok.mpr ⟨data, read, rfl⟩

/-- Squeezing the length of a shape out of its list gives the rank. -/
theorem inferNode_squeeze {graph : Graph} {known : Known} {node : Node} {shape : Shape} {outputType : ElementType}
    (index : outputType.isIndex) (kind : node.kind = .squeeze)
    (read : input graph known node 0 = .ok (shapeOf (shapeOf shape outputType).shape outputType))
    (axis : input graph known node 1 = .ok (.ofTensor (.scalar 0))) :
    inferNode graph known node = .ok (rankOf shape outputType) := by
  have connected : (graph.inEdge? ⟨node.id, 1⟩).isSome := by
    obtain ⟨source, fed, _⟩ := input_eq_ok.mp axis
    rw [Graph.isSome_inEdge?, fed]
    rfl
  simp only [inferNode, kind, squeeze, connected, if_true]
  refine bind_eq_ok.mpr ⟨_, read, bind_eq_ok.mpr ⟨_, axis, ?_⟩⟩
  exact squeezeAt_ofShape_singleton index node.id (UInt64.ofNat shape.length)

end Inference

namespace RankDecomposition
open OpGraph.Graph Inference

/-- The table in which the values of a chain stand in place of that of the rank of a shape. -/
def Chain.known (chain : Chain) (known : Known) (rank : NodeId) (shape : Shape) (outputType : ElementType) : Known :=
  (known.erase ⟨rank, 0⟩).insert ⟨chain.axis, 0⟩ (.ofTensor (.scalar 0))
    |>.insert ⟨chain.shape, 0⟩ (shapeOf shape outputType)
    |>.insert ⟨chain.length, 0⟩ (shapeOf (shapeOf shape outputType).shape outputType)
    |>.insert ⟨chain.squeeze, 0⟩ (rankOf shape outputType)

theorem Chain.getElem?_known (chain : Chain) (known : Known) (rank : NodeId) (shape : Shape)
    (outputType : ElementType) (port : Port) : (chain.known known rank shape outputType)[port]? =
      if ⟨chain.squeeze, 0⟩ = port then some (rankOf shape outputType)
      else if ⟨chain.length, 0⟩ = port then some (shapeOf (shapeOf shape outputType).shape outputType)
      else if ⟨chain.shape, 0⟩ = port then some (shapeOf shape outputType)
      else if ⟨chain.axis, 0⟩ = port then some (.ofTensor (.scalar 0))
      else if ⟨rank, 0⟩ = port then none else known[port]? := by
  simp only [Chain.known, Std.ExtTreeMap.getElem?_insert, Std.ExtTreeMap.getElem?_erase, Std.compare_eq_iff_eq]

namespace Decomposed

variable {before after : Graph} {rank : Node} {name : String} {outputType : ElementType} {chain : Chain}

theorem known_kept (decomposed : Decomposed before after rank.id name outputType chain) (known : Known) (shape : Shape)
    {port : Port} (present : before.hasNode port.node) (other : port.node ≠ rank.id) :
    (chain.known known rank.id shape outputType)[port]? = known[port]? := by
  have apart : ∀ id ∈ chain.ids, port.node ≠ id := by
    intro id member same
    exact decomposed.fresh id member (same ▸ present)
  obtain ⟨axis, squeeze, length, shape⟩ := Chain.forall_mem_ids.mp apart
  simp [Chain.getElem?_known, Port.ext_iff, axis.symm, squeeze.symm, length.symm, shape.symm, other.symm]

/-- An input finds its value at the relocated producer. -/
theorem known_relocated (decomposed : Decomposed before after rank.id name outputType chain) {known : Known}
    (solves : before.Solves known) {shape : Shape}
    (value : known[(⟨rank.id, 0⟩ : Port)]? = some (rankOf shape outputType))
    {source : Port} {data : Inferred} (stored : known[source]? = some data) :
    ∃ moved, relocate rank.id chain.squeeze source = some moved ∧
      (chain.known known rank.id shape outputType)[moved]? = some data := by
  obtain ⟨present, index⟩ := solves.support stored
  by_cases here : source.node = rank.id
  · have output : source = ⟨rank.id, 0⟩ := Port.ext here index
    rw [output, value] at stored
    refine ⟨⟨chain.squeeze, 0⟩, by simp [relocate, here, index], ?_⟩
    rw [Chain.getElem?_known, if_pos rfl, stored]
  · exact ⟨source, by simp [relocate, here], by rw [decomposed.known_kept known shape present here, stored]⟩

/-- The values of the chain solve its rules, given those of what the rank reads. -/
theorem rule_chain (decomposed : Decomposed before after rank.id name outputType chain) (index : outputType.isIndex)
    {known : Known} {data : Inferred}
    (read : ∃ source, after.producer? ⟨chain.shape, 0⟩ = some source ∧
      (chain.known known rank.id data.shape outputType)[source]? = some data) :
    ∀ node ∈ chain.nodes name outputType, ∃ inferred,
      (chain.known known rank.id data.shape outputType)[(⟨node.id, 0⟩ : Port)]? = some inferred ∧
        inferNode after (chain.known known rank.id data.shape outputType) node = .ok inferred := by
  obtain ⟨⟨axisSqueeze, axisLength, axisShape⟩, ⟨squeezeLength, squeezeShape⟩, lengthShape⟩ :=
    Chain.nodup_ids.mp decomposed.distinct
  let table := chain.known known rank.id data.shape outputType
  let shapeValue := shapeOf data.shape outputType
  let lengthValue := shapeOf shapeValue.shape outputType
  have squeeze : table[(⟨chain.squeeze, 0⟩ : Port)]? = some (rankOf data.shape outputType) := by
    rw [Chain.getElem?_known, if_pos rfl]
  have length : table[(⟨chain.length, 0⟩ : Port)]? = some lengthValue := by
    simp [table, lengthValue, shapeValue, Chain.getElem?_known, squeezeLength]
  have shape : table[(⟨chain.shape, 0⟩ : Port)]? = some shapeValue := by
    simp [table, shapeValue, Chain.getElem?_known, squeezeShape, lengthShape]
  have axis : table[(⟨chain.axis, 0⟩ : Port)]? = some (.ofTensor (.scalar 0)) := by
    simp [table, Chain.getElem?_known, axisSqueeze.symm, axisLength.symm, axisShape.symm]
  have shapeRead : input after table (chain.shapeNode name outputType) 0 = .ok data := input_eq_ok.mpr read
  have lengthRead : input after table (chain.lengthNode name outputType) 0 = .ok shapeValue :=
    input_eq_ok.mpr ⟨⟨chain.shape, 0⟩, decomposed.producer?_length, shape⟩
  have squeezeRead : input after table (chain.squeezeNode name) 0 = .ok lengthValue :=
    input_eq_ok.mpr ⟨⟨chain.length, 0⟩, decomposed.producer?_squeeze, length⟩
  have axisRead : input after table (chain.squeezeNode name) 1 = .ok (.ofTensor (.scalar 0)) :=
    input_eq_ok.mpr ⟨⟨chain.axis, 0⟩, decomposed.producer?_axis, axis⟩
  simp only [Chain.nodes, List.forall_mem_cons, List.not_mem_nil, false_implies, implies_true, and_true]
  refine ⟨⟨_, axis, rfl⟩, ⟨_, squeeze, ?_⟩, ⟨_, length, ?_⟩, ⟨_, shape, ?_⟩⟩
  · exact inferNode_squeeze index rfl squeezeRead axisRead
  · exact inferNode_shapeOf rfl rfl lengthRead
  · exact inferNode_shapeOf rfl rfl shapeRead

/-- All that the new table knows is about the first outputs of nodes of the new graph. -/
theorem known_support (decomposed : Decomposed before after rank.id name outputType chain) {known : Known}
    (solves : before.Solves known) {shape : Shape} {port : Port} {inferred : Inferred}
    (stored : (chain.known known rank.id shape outputType)[port]? = some inferred) :
    after.hasNode port.node ∧ port.index = 0 := by
  have inserted {id : NodeId} (member : id ∈ chain.ids) (same : ⟨id, 0⟩ = port) :
      after.hasNode port.node ∧ port.index = 0 := by
    subst same
    exact ⟨(decomposed.hasNode_iff id).mpr (.inr member), rfl⟩
  rw [Chain.getElem?_known] at stored
  split at stored
  next same => exact inserted (by simp [Chain.ids]) same
  split at stored
  next same => exact inserted (by simp [Chain.ids]) same
  split at stored
  next same => exact inserted (by simp [Chain.ids]) same
  split at stored
  next same => exact inserted (by simp [Chain.ids]) same
  split at stored
  next => cases stored
  next different =>
    obtain ⟨present, output⟩ := solves.support stored
    refine ⟨(decomposed.hasNode_iff port.node).mpr (.inl ⟨present, fun same => different ?_⟩), output⟩
    exact Port.ext same.symm output.symm

/-- A node that stays reads at the relocated producers what it read before. -/
theorem transfers_kept (decomposed : Decomposed before after rank.id name outputType chain) {known : Known}
    (solves : before.Solves known) {shape : Shape}
    (value : known[(⟨rank.id, 0⟩ : Port)]? = some (rankOf shape outputType))
    {node : Node} (present : before.hasNode node.id) (other : node.id ≠ rank.id) :
    Transfers before after known (chain.known known rank.id shape outputType) node := by
  refine ⟨fun {index source data} fed stored => ?_, fun unconnected => ?_⟩
  · obtain ⟨target, relocated, read⟩ := decomposed.known_relocated solves value stored
    have rewired := @decomposed.producer?_kept ⟨node.id, index⟩ present other
    rw [fed, Option.bind_some, relocated] at rewired
    exact ⟨target, rewired, read⟩
  · have rewired := @decomposed.producer?_kept ⟨node.id, 1⟩ present other
    rwa [unconnected, Option.bind_none] at rewired

/-- The values of a graph, with the value of a rank passed on to the squeeze, solve the rules after its
decomposition. -/
theorem solves (decomposed : Decomposed before after rank.id name outputType chain) (wf : before.WellFormed)
    (kind : rank.kind = .rank) (passes : RankDecomposition.outputType before rank = .ok outputType)
    (found : before.node? rank.id = some rank) {known : Known} (solves : before.Solves known) :
    ∃ shape, known[(⟨rank.id, 0⟩ : Port)]? = some (rankOf shape outputType) ∧
      after.Solves (chain.known known rank.id shape outputType) := by
  obtain ⟨declared, index, _⟩ := outputType_eq_ok.mp passes
  obtain ⟨inferred, value, holds⟩ := solves.rule (hasNode_of_node? found) found
  obtain ⟨data, read, same⟩ := inferNode_rank kind declared index holds
  subst same
  refine ⟨data.shape, value, fun stored => decomposed.known_support solves stored, ?_⟩
  intro id node present stored
  rcases (decomposed.hasNode_iff id).mp present with kept | inserted
  · obtain ⟨present, other⟩ := kept
    rw [decomposed.node?_kept present other] at stored
    obtain ⟨inferred, before', holds⟩ := solves.rule present stored
    have own := wf.node_id stored
    subst own
    have transfers := decomposed.transfers_kept solves value present other
    exact ⟨inferred, (decomposed.known_kept known data.shape present other).trans before', transfers.inferNode holds⟩
  -- The chain reads where the rank read, which may itself have been the rank: then at the squeeze.
  · obtain ⟨new, member, same⟩ := List.mem_map.mp (chain.map_id_nodes name outputType ▸ inserted)
    subst same
    rw [decomposed.node?_chain new member] at stored
    cases stored
    refine decomposed.rule_chain index ?_ node member
    obtain ⟨source, fed, read⟩ := input_eq_ok.mp read
    obtain ⟨target, relocated, moved⟩ := decomposed.known_relocated solves value read
    exact ⟨target, by rw [decomposed.producer?_shape, fed, Option.bind_some, relocated], moved⟩

end Decomposed
end RankDecomposition
end OpGraph
