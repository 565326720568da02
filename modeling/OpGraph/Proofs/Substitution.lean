import OpGraph.Proofs.RankPass
import OpGraph.Proofs.Reachability

/-! What one decomposition does to a graph, node by node and connection by connection. A node that does not
feed itself is replaced without a trace but for the edges that touch it: its producer feeds the chain, and
the consumers of its first output are fed by the squeeze. -/

namespace OpGraph.RankDecomposition
open OpGraph.Graph

/-- How ports are joined once a chain stands for a node that was fed by the given producer. -/
inductive Joined (before : Graph) (id : NodeId) (producer : Port) (chain : Chain) : (source target : Port) → Prop where
  | kept {source target} (joined : before.Joins source target) (left : source.node ≠ id) (right : target.node ≠ id) :
    Joined before id producer chain source target
  | shape : Joined before id producer chain producer ⟨chain.shape, 0⟩
  | length : Joined before id producer chain ⟨chain.shape, 0⟩ ⟨chain.length, 0⟩
  | squeeze : Joined before id producer chain ⟨chain.length, 0⟩ ⟨chain.squeeze, 0⟩
  | axis : Joined before id producer chain ⟨chain.axis, 0⟩ ⟨chain.squeeze, 1⟩
  | consumer {target} (joined : before.Joins ⟨id, 0⟩ target) : Joined before id producer chain ⟨chain.squeeze, 0⟩ target

/-- The second graph is the first one with a chain in the place of a node. -/
structure Substituted (before after : Graph) (id : NodeId) (name : String) (outputType : ElementType) (producer : Port)
    (chain : Chain) : Prop where
  wellFormed : after.WellFormed
  distinct : chain.ids.Nodup
  fresh : ∀ new ∈ chain.ids, ¬ before.hasNode new
  hasNode_iff : ∀ other, after.hasNode other ↔ (before.hasNode other ∧ other ≠ id) ∨ other ∈ chain.ids
  kept : ∀ other node, before.node? other = some node → other ≠ id → after.node? other = some node
  shape : after.node? chain.shape =
    some { id := chain.shape, kind := .shapeOf, name := some s!"{name}/shape_of", outputType := some outputType }
  length : after.node? chain.length =
    some { id := chain.length, kind := .shapeOf, name := some s!"{name}/rank_of", outputType := some outputType }
  axis : after.node? chain.axis =
    some { id := chain.axis, kind := .const, name := some s!"{name}/0d_rank_of/axis", outputType := some .i64,
           value := some (.scalar 0) }
  squeeze : after.node? chain.squeeze = some { id := chain.squeeze, kind := .squeeze, name := some name }
  joins_iff : ∀ source target, after.Joins source target ↔ Joined before id producer chain source target

variable {before after : Graph} {id : NodeId} {name : String} {outputType : ElementType}
    {producer : Port} {chain : Chain}

/-- No port of a node that does not feed itself is fed by that node. -/
theorem node_ne_of_not_feeds (wf : before.WellFormed) (unlooped : ¬ before.Feeds id id) {source target : Port}
    (fed : before.producer? target = some source) : ¬ (source.node = id ∧ target.node = id) := by
  rintro ⟨rfl, right⟩
  have feeds := wf.feeds_of_producer? fed
  rw [right] at feeds
  exact unlooped feeds

/-- The name of the axis, which is composed in two steps. -/
theorem axisName_eq (name : String) : s!"{Chain.firstName name}/axis" = s!"{name}/0d_rank_of/axis" := by
  show name ++ "/0d_rank_of" ++ "/axis" = name ++ "/0d_rank_of/axis"
  rw [String.append_assoc]
  rfl

namespace Decomposed

theorem joined_of_joins (decomposed : Decomposed before after id name outputType chain) (wf : before.WellFormed)
    (fed : before.producer? ⟨id, 0⟩ = some producer) (unlooped : producer.node ≠ id) {source target : Port}
    (joins : after.Joins source target) : Joined before id producer chain source target := by
  have found := decomposed.wellFormed.producer?_eq_some_iff.mpr joins
  rcases decomposed.producer?_cases found with
    ⟨_, right, old, known, moved⟩ | ⟨rfl, old, known, moved⟩ | ⟨rfl, rfl⟩ | ⟨rfl, rfl⟩ | ⟨rfl, rfl⟩
  · have joined := wf.producer?_eq_some_iff.mp known
    rcases relocate_eq_some_iff.mp moved with ⟨rfl, rfl⟩ | ⟨left, rfl⟩
    · exact .consumer joined
    · exact .kept joined left right
  · cases known.symm.trans fed
    rcases relocate_eq_some_iff.mp moved with ⟨same, _⟩ | ⟨_, rfl⟩
    · exact absurd (congrArg Port.node same) unlooped
    · exact .shape
  · exact .length
  · exact .squeeze
  · exact .axis

theorem joins_of_joined (decomposed : Decomposed before after id name outputType chain) (wf : before.WellFormed)
    (fed : before.producer? ⟨id, 0⟩ = some producer) (unlooped : ¬ before.Feeds id id) {source target : Port}
    (joined : Joined before id producer chain source target) : after.Joins source target := by
  -- a port that was fed and is not one of the node itself is fed by the old producer, relocated
  have moves {old source target : Port} (known : before.Joins old target) (right : target.node ≠ id)
      (moved : relocate id chain.squeeze old = some source) : after.producer? target = some source := by
    have found := wf.producer?_eq_some_iff.mpr known
    rw [decomposed.producer?_kept (wf.hasNode_of_producer? found).2 right, found]
    exact moved
  apply decomposed.wellFormed.producer?_eq_some_iff.mp
  cases joined with
  | kept joined left right => exact moves joined right (relocate_eq_some_iff.mpr (.inr ⟨left, rfl⟩))
  | shape =>
    have left : producer.node ≠ id := fun same => node_ne_of_not_feeds wf unlooped fed ⟨same, rfl⟩
    rw [decomposed.producer?_shape, fed]
    exact relocate_eq_some_iff.mpr (.inr ⟨left, rfl⟩)
  | length => exact decomposed.producer?_length
  | squeeze => exact decomposed.producer?_squeeze
  | axis => exact decomposed.producer?_axis
  | consumer joined =>
    have right : target.node ≠ id := fun same =>
      node_ne_of_not_feeds wf unlooped (wf.producer?_eq_some_iff.mpr joined) ⟨rfl, same⟩
    exact moves joined right (relocate_eq_some_iff.mpr (.inl ⟨rfl, rfl⟩))

theorem substituted (decomposed : Decomposed before after id name outputType chain) (wf : before.WellFormed)
    (fed : before.producer? ⟨id, 0⟩ = some producer) (unlooped : ¬ before.Feeds id id) :
    Substituted before after id name outputType producer chain := by
  have stored := decomposed.node?_chain
  simp only [Chain.nodes, List.forall_mem_cons, List.not_mem_nil, false_implies, implies_true, and_true] at stored
  obtain ⟨axis, squeeze, length, shape⟩ := stored
  refine {
    wellFormed := decomposed.wellFormed, distinct := decomposed.distinct, fresh := decomposed.fresh
    hasNode_iff := decomposed.hasNode_iff, kept := ?kept, shape, length, axis := ?axis, squeeze, joins_iff := ?joins }
  case kept =>
    intro other node found different
    rw [decomposed.node?_kept (hasNode_of_node? found) different, found]
  case axis =>
    rw [← axisName_eq]
    exact axis
  case joins =>
    intro source target
    refine ⟨decomposed.joined_of_joins wf fed ?_, decomposed.joins_of_joined wf fed unlooped⟩
    exact fun same => node_ne_of_not_feeds wf unlooped fed ⟨same, rfl⟩

end Decomposed

/-- A node of any kind that passes the check and does not feed itself is replaced by a chain of four unused
nodes; all other nodes are as they were, and ports are joined as before but for what touched the node. -/
theorem replace_substitutes [EdgeIdSupply] {graph : Graph} (wf : graph.WellFormed) {id : NodeId} {node : Node}
    {expected : ElementType}
    (found : graph.node? id = some node) (passes : RankDecomposition.outputType graph node = .ok expected)
    (unlooped : ¬ graph.Feeds id id) :
    ∃ producer chain after, graph.producer? ⟨id, 0⟩ = some producer ∧
      graph.edit (replace id) = (.ok (statsOf graph id), after) ∧
      Substituted graph after id node.softName expected producer chain := by
  have own := wf.node_id found
  subst own
  obtain ⟨_, _, connected⟩ := outputType_eq_ok.mp passes
  obtain ⟨producer, fed⟩ := Option.isSome_iff_exists.mp connected
  obtain ⟨chain, after, ran, decomposed⟩ := edit_decompose_ok wf found passes
  refine ⟨producer, chain, after, fed, ?_, decomposed.substituted wf fed unlooped⟩
  rw [replace, edit_bind_ok (edit_get graph), edit_bind_ok (edit_discard_ok ran), edit_pure]

def addition : Node := { id := "a", kind := .other "Add", name := some "n", outputType := some .i32 }

/-- A node that is no rank, with two inputs and three consumers, one of which has taken the id that the chain would
start with. -/
def crowded : Graph := Graph.empty.history
  [.addNode (.parameter "p" none), .addNode addition, .addNode { id := "n/shape_of", kind := .other "Tile" },
    .addNode (.result "y"), .connect ⟨"p", 0⟩ ⟨"a", 0⟩, .connect ⟨"p", 0⟩ ⟨"a", 1⟩,
    .connect ⟨"a", 0⟩ ⟨"n/shape_of", 0⟩, .connect ⟨"a", 0⟩ ⟨"y", 0⟩, .connect ⟨"a", 1⟩ ⟨"n/shape_of", 1⟩]

theorem not_feeds_crowded : ¬ crowded.Feeds "a" "a" := by
  rintro ⟨edge, member, source, target⟩
  have none : ∀ edge ∈ crowded.edgeList, ¬ (edge.source.node = "a" ∧ edge.target.node = "a") := by decide +kernel
  exact none edge member ⟨source, target⟩

/-- The chain is fed by the first input and feeds both consumers of the first output. -/
theorem replace_substitutes_crowded : crowded.WellFormed ∧ ∃ (chain : Chain) (after : Graph),
    crowded.edit (replace "a") = (.ok (statsOf crowded "a"), after) ∧ chain.shape ≠ "n/shape_of" ∧
      after.Joins ⟨"p", 0⟩ ⟨chain.shape, 0⟩ ∧ after.Joins ⟨chain.squeeze, 0⟩ ⟨"n/shape_of", 0⟩ ∧
      after.Joins ⟨chain.squeeze, 0⟩ ⟨"y", 0⟩ ∧ ¬ after.hasNode "a" := by
  have wf : crowded.WellFormed := wellFormed_empty.history _
  have found : crowded.node? "a" = some addition := by decide +kernel
  have passes : RankDecomposition.outputType crowded addition = .ok .i32 := by decide +kernel
  have fed : crowded.producer? ⟨"a", 0⟩ = some ⟨"p", 0⟩ ∧ crowded.producer? ⟨"n/shape_of", 0⟩ = some ⟨"a", 0⟩ ∧
      crowded.producer? ⟨"y", 0⟩ = some ⟨"a", 0⟩ := by decide +kernel
  have taken : crowded.hasNode "n/shape_of" := by decide +kernel
  obtain ⟨producer, chain, after, known, ran, whole⟩ := replace_substitutes wf found passes not_feeds_crowded
  cases known.symm.trans fed.1
  refine ⟨wf, chain, after, ran, ?_, ?_, ?_, ?_, ?_⟩
  · intro same
    exact (Chain.forall_mem_ids.mp whole.fresh).2.2.2 (same ▸ taken)
  · exact (whole.joins_iff _ _).mpr .shape
  · exact (whole.joins_iff _ _).mpr (.consumer (wf.producer?_eq_some_iff.mp fed.2.1))
  · exact (whole.joins_iff _ _).mpr (.consumer (wf.producer?_eq_some_iff.mp fed.2.2))
  · rw [whole.hasNode_iff]
    rintro (⟨_, other⟩ | inside)
    · exact other rfl
    · exact whole.fresh _ inside (hasNode_of_node? found)

end OpGraph.RankDecomposition
