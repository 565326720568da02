import OpGraph.Proofs.Evaluation
import OpGraph.Proofs.Histories

/-! Evaluation as a recursion on producers. What a node yields is defined by one rule for each kind, from
what its producers yield and without any table or order. Evaluation succeeds exactly where every node
of a graph without circles yields something, and its table lists just that. -/

namespace OpGraph.Graph
open Inference

/-- What output 0 of a node yields. An input that is fed from another output port cannot be read, and
the operations that the library does not know yield nothing. -/
inductive Yields (graph : Graph) : NodeId → Inferred → Prop where
  | parameter {id node shape} (found : graph.node? id = some node) (kind : node.kind = .parameter)
      (static : node.shape = some shape) : Yields graph id (.ofShape shape)
  | const {id node value} (found : graph.node? id = some node) (kind : node.kind = .const)
      (stored : node.value = some value) : Yields graph id (.ofTensor value)
  | result {id node source data} (found : graph.node? id = some node) (kind : node.kind = .result)
      (fed : graph.producer? ⟨id, 0⟩ = some ⟨source, 0⟩) (reads : Yields graph source data) : Yields graph id data
  | shapeOf {id node source data} (found : graph.node? id = some node) (kind : node.kind = .shapeOf)
      (fed : graph.producer? ⟨id, 0⟩ = some ⟨source, 0⟩) (reads : Yields graph source data) :
      Yields graph id (.ofTensor (.ofShape data.shape (node.outputType.getD .i64)))
  | rank {id node source data rank} (found : graph.node? id = some node) (kind : node.kind = .rank)
      (fed : graph.producer? ⟨id, 0⟩ = some ⟨source, 0⟩) (reads : Yields graph source data)
      (scalar : (Tensor.ofShape [UInt64.ofNat data.shape.length] (node.outputType.getD .i64)).reshape [] = .ok rank) :
      Yields graph id (.ofTensor rank)
  | squeezeUnits {id node source data squeezed} (found : graph.node? id = some node) (kind : node.kind = .squeeze)
      (fed : graph.producer? ⟨id, 0⟩ = some ⟨source, 0⟩) (reads : Yields graph source data)
      (unconnected : graph.producer? ⟨id, 1⟩ = none)
      (removed : squeezeAt id data (unitPositions data.shape) = .ok squeezed) : Yields graph id squeezed
  | squeezeAxes {id node source data axisSource axisData axes positions squeezed}
      (found : graph.node? id = some node) (kind : node.kind = .squeeze)
      (fed : graph.producer? ⟨id, 0⟩ = some ⟨source, 0⟩) (reads : Yields graph source data)
      (axesFed : graph.producer? ⟨id, 1⟩ = some ⟨axisSource, 0⟩) (axesRead : Yields graph axisSource axisData)
      (integers : axisData.value >>= Tensor.ints? = some axes)
      (named : axes.mapM (position id data.shape.length) = .ok positions)
      (removed : squeezeAt id data positions = .ok squeezed) : Yields graph id squeezed

variable {graph : Graph} {known : Known} {id : NodeId} {node : Node} {inferred : Inferred}

theorem Yields.hasNode (yields : graph.Yields id inferred) : graph.hasNode id := by
  cases yields <;> exact hasNode_of_node? ‹_›

theorem Yields.of_shapeOf (yields : graph.Yields id inferred) (found : graph.node? id = some node)
    (kind : node.kind = .shapeOf) :
    ∃ source data, graph.producer? ⟨id, 0⟩ = some ⟨source, 0⟩ ∧ graph.Yields source data ∧
      inferred = .ofTensor (.ofShape data.shape (node.outputType.getD .i64)) := by
  cases yields with
  | shapeOf known _ fed reads => cases found.symm.trans known; exact ⟨_, _, fed, reads, rfl⟩
  | parameter known other | const known other | result known other | rank known other | squeezeUnits known other
  | squeezeAxes known other => cases found.symm.trans known; cases kind.symm.trans other

/-! ## One node -/

def Knows (graph : Graph) (known : Known) (id : NodeId) : Prop :=
  ∀ port source data, graph.producer? ⟨id, port⟩ = some ⟨source, 0⟩ → graph.Yields source data →
    known[(⟨source, 0⟩ : Port)]? = some data

def Sound (graph : Graph) (known : Known) (id : NodeId) : Prop :=
  ∀ port source data, graph.producer? ⟨id, port⟩ = some source → known[source]? = some data →
    source.index = 0 ∧ graph.Yields source.node data

theorem Knows.input (knows : graph.Knows known node.id) {port : UInt64} {source : NodeId} {data : Inferred}
    (fed : graph.producer? ⟨node.id, port⟩ = some ⟨source, 0⟩) (yields : graph.Yields source data) :
    Inference.input graph known node port = .ok data :=
  input_eq_ok.mpr ⟨_, fed, knows port source data fed yields⟩

theorem Sound.input (sound : graph.Sound known node.id) {port : UInt64} {data : Inferred}
    (read : Inference.input graph known node port = .ok data) :
    ∃ source, graph.producer? ⟨node.id, port⟩ = some ⟨source, 0⟩ ∧ graph.Yields source data := by
  obtain ⟨source, fed, stored⟩ := input_eq_ok.mp read
  obtain ⟨output, yields⟩ := sound port source data fed stored
  have first : source = ⟨source.node, 0⟩ := Port.ext rfl output
  exact ⟨source.node, first ▸ fed, yields⟩

theorem Yields.inferNode (yields : graph.Yields node.id inferred) (found : graph.node? node.id = some node)
    (knows : graph.Knows known node.id) : Inference.inferNode graph known node = .ok inferred := by
  generalize own : node.id = id at yields
  cases yields with
  | parameter known' kind static =>
    cases found.symm.trans (own ▸ known')
    simp only [Inference.inferNode, kind, static]
  | const known' kind stored =>
    cases found.symm.trans (own ▸ known')
    simp only [Inference.inferNode, kind, stored]
  | result known' kind fed data =>
    cases found.symm.trans (own ▸ known')
    simp only [Inference.inferNode, kind]
    exact knows.input (own ▸ fed) data
  | shapeOf known' kind fed data =>
    cases found.symm.trans (own ▸ known')
    simp only [Inference.inferNode, kind]
    exact bind_eq_ok.mpr ⟨_, knows.input (own ▸ fed) data, rfl⟩
  | rank known' kind fed data scalar =>
    cases found.symm.trans (own ▸ known')
    simp only [Inference.inferNode, kind]
    refine bind_eq_ok.mpr ⟨_, knows.input (own ▸ fed) data, ?_⟩
    simp only [scalar]
  | squeezeUnits known' kind fed data unconnected removed =>
    cases found.symm.trans (own ▸ known')
    subst own
    simp only [Inference.inferNode, kind, squeeze, isSome_inEdge?, unconnected]
    exact bind_eq_ok.mpr ⟨_, knows.input fed data, removed⟩
  | squeezeAxes known' kind fed data axesFed axesRead integers named removed =>
    cases found.symm.trans (own ▸ known')
    subst own
    simp only [Inference.inferNode, kind, squeeze, isSome_inEdge?, axesFed, Option.isSome_some, if_true]
    refine bind_eq_ok.mpr ⟨_, knows.input fed data, bind_eq_ok.mpr ⟨_, knows.input axesFed axesRead, ?_⟩⟩
    simp only [integers]
    exact bind_eq_ok.mpr ⟨_, named, removed⟩

theorem yields_of_squeeze (found : graph.node? node.id = some node) (kind : node.kind = .squeeze)
    (sound : graph.Sound known node.id) (holds : squeeze graph known node = .ok inferred) :
    graph.Yields node.id inferred := by
  simp only [squeeze, isSome_inEdge?] at holds
  obtain ⟨data, read, rest⟩ := bind_eq_ok.mp holds
  obtain ⟨source, fed, yields⟩ := sound.input read
  cases second : graph.producer? ⟨node.id, 1⟩ with
  | none =>
    simp only [second, Option.isSome_none, Bool.false_eq_true, if_false] at rest
    exact .squeezeUnits found kind fed yields second rest
  | some axisSource =>
    simp only [second, Option.isSome_some, if_true] at rest
    obtain ⟨axisData, axesRead, rest⟩ := bind_eq_ok.mp rest
    obtain ⟨axisSource, axesFed, axesYield⟩ := sound.input axesRead
    split at rest
    next => cases rest
    next axes integers =>
      obtain ⟨positions, named, removed⟩ := bind_eq_ok.mp rest
      exact .squeezeAxes found kind fed yields axesFed axesYield integers named removed

theorem yields_of_inferNode (found : graph.node? node.id = some node) (sound : graph.Sound known node.id)
    (holds : Inference.inferNode graph known node = .ok inferred) : graph.Yields node.id inferred := by
  cases kind : node.kind with
  | parameter =>
    cases static : node.shape with
    | none => simp [Inference.inferNode, kind, static] at holds
    | some shape =>
      simp only [Inference.inferNode, kind, static] at holds
      cases holds
      exact .parameter found kind static
  | const =>
    cases stored : node.value with
    | none => simp [Inference.inferNode, kind, stored] at holds
    | some value =>
      simp only [Inference.inferNode, kind, stored] at holds
      cases holds
      exact .const found kind stored
  | result =>
    simp only [Inference.inferNode, kind] at holds
    obtain ⟨source, fed, data⟩ := sound.input holds
    exact .result found kind fed data
  | shapeOf =>
    simp only [Inference.inferNode, kind] at holds
    obtain ⟨data, read, same⟩ := bind_eq_ok.mp holds
    cases same
    obtain ⟨source, fed, data⟩ := sound.input read
    exact .shapeOf found kind fed data
  | rank =>
    simp only [Inference.inferNode, kind] at holds
    obtain ⟨data, read, rest⟩ := bind_eq_ok.mp holds
    obtain ⟨source, fed, data⟩ := sound.input read
    split at rest
    next rank scalar =>
      cases rest
      exact .rank found kind fed data scalar
    next => cases rest
  | squeeze =>
    simp only [Inference.inferNode, kind] at holds
    exact yields_of_squeeze found kind sound holds
  | other name => simp [Inference.inferNode, kind] at holds

/-! ## The table -/

/-- Without circles, a table that satisfies all rules lists what the nodes yield and nothing else. -/
theorem Solves.yields_iff (solves : graph.Solves known) (wf : graph.WellFormed) (acyclic : graph.Acyclic)
    {id : NodeId} {inferred : Inferred} :
    known[(⟨id, 0⟩ : Port)]? = some inferred ↔ graph.Yields id inferred := by
  induction id using (acyclic.wellFounded wf).induction generalizing inferred with
  | _ id ih =>
    have sound : graph.Sound known id := by
      intro port source data fed stored
      have output := (solves.support stored).2
      have first : source = ⟨source.node, 0⟩ := Port.ext rfl output
      exact ⟨output, (ih source.node (wf.feeds_of_producer? fed)).mp (first ▸ stored)⟩
    have knows : graph.Knows known id := by
      intro port source data fed yields
      exact (ih source (wf.feeds_of_producer? fed)).mpr yields
    constructor
    · intro stored
      obtain ⟨node, found, rfl⟩ := wf.exists_node (solves.support stored).1
      obtain ⟨value, present, holds⟩ := solves.rule (hasNode_of_node? found) found
      rw [stored] at present
      cases present
      exact yields_of_inferNode found sound holds
    · intro yields
      obtain ⟨node, found, rfl⟩ := wf.exists_node yields.hasNode
      obtain ⟨value, present, holds⟩ := solves.rule yields.hasNode found
      rw [yields.inferNode found knows] at holds
      cases holds
      exact present

/-- Where all nodes of an order yield something, each of them can be evaluated at its turn. -/
theorem ReadyOrder.evaluates {placed order : List NodeId} (legal : graph.ReadyOrder placed order)
    (wf : graph.WellFormed) (all : ∀ id ∈ order, ∃ inferred, graph.Yields id inferred)
    (lists : ∀ id inferred, id ∈ placed → (known[(⟨id, 0⟩ : Port)]? = some inferred ↔ graph.Yields id inferred)) :
    ∃ after, order.foldlM (Inference.step graph) known = .ok after := by
  induction order generalizing placed known with
  | nil => exact ⟨known, rfl⟩
  | cons id order ih =>
    obtain ⟨fresh, ready, legal⟩ := legal
    obtain ⟨inferred, yields⟩ := all id (by simp)
    obtain ⟨node, found, rfl⟩ := wf.exists_node yields.hasNode
    have knows : graph.Knows known node.id := by
      intro port source data fed yields
      obtain ⟨edge, member, leaves, enters⟩ := wf.feeds_of_producer? fed
      have before := ready edge member enters
      rw [leaves] at before
      exact (lists source data before).mpr yields
    have first : Inference.step graph known node.id = .ok (known.insert ⟨node.id, 0⟩ inferred) := by
      simp only [Inference.step, found]
      exact bind_eq_ok.mpr ⟨inferred, yields.inferNode found knows, rfl⟩
    obtain ⟨after, ran⟩ := ih legal (fun other member => all other (by simp [member])) (by
      intro other data member
      rw [Std.ExtTreeMap.getElem?_insert]
      by_cases same : other = node.id
      · subst same
        rw [if_pos (Std.compare_eq_iff_eq.mpr rfl), Option.some.injEq]
        constructor
        · rintro rfl
          exact yields
        · intro other
          exact Except.ok.inj ((yields.inferNode found knows).symm.trans (other.inferNode found knows))
      · rw [if_neg fun equal => same (congrArg Port.node (Std.compare_eq_iff_eq.mp equal)).symm]
        exact lists other data ((List.mem_cons.mp member).resolve_left same))
    exact ⟨after, by rw [List.foldlM_cons, first]; exact ran⟩

theorem exists_infer_iff (wf : graph.WellFormed) : (∃ known, graph.infer = .ok known) ↔
    graph.Acyclic ∧ ∀ id, graph.hasNode id → ∃ inferred, graph.Yields id inferred := by
  constructor
  · intro ⟨known, ran⟩
    obtain ⟨sorted, solves⟩ := (infer_eq_ok_iff wf).mp ran
    have acyclic := (exists_topologicalOrder_iff wf).mp sorted
    refine ⟨acyclic, fun id present => ?_⟩
    obtain ⟨node, found⟩ := exists_node?_of_hasNode present
    obtain ⟨inferred, stored, _⟩ := solves.rule present found
    exact ⟨inferred, (solves.yields_iff wf acyclic).mp stored⟩
  · intro ⟨acyclic, all⟩
    obtain ⟨order, sorted⟩ := (exists_topologicalOrder_iff wf).mpr acyclic
    have ordered := topologicalOrder_isOrder wf sorted
    have nothing : ∀ id inferred, id ∈ ([] : List NodeId) →
        ((∅ : Known)[(⟨id, 0⟩ : Port)]? = some inferred ↔ graph.Yields id inferred) :=
      fun _ _ member => absurd member List.not_mem_nil
    obtain ⟨known, ran⟩ :=
      ordered.legal.evaluates wf (fun id member => all id ((ordered.mem_iff id).mp member)) nothing
    exact ⟨known, by rw [infer, sorted]; exact ran⟩

theorem infer_lists (wf : graph.WellFormed) (ran : graph.infer = .ok known) (port : Port) (inferred : Inferred) :
    known[port]? = some inferred ↔ port.index = 0 ∧ graph.Yields port.node inferred := by
  obtain ⟨sorted, solves⟩ := (infer_eq_ok_iff wf).mp ran
  have acyclic := (exists_topologicalOrder_iff wf).mp sorted
  have listed : port.index = 0 → (known[port]? = some inferred ↔ graph.Yields port.node inferred) := by
    intro output
    have first : port = ⟨port.node, 0⟩ := Port.ext rfl output
    rw [first]
    exact solves.yields_iff wf acyclic
  constructor
  · intro stored
    have output := (solves.support stored).2
    exact ⟨output, (listed output).mp stored⟩
  · intro ⟨output, yields⟩
    exact (listed output).mpr yields

theorem exists_of_foldlM_step_eq_error (wf : graph.WellFormed) {order : List NodeId} {error : InferError}
    (truthful : ∀ (port : Port) data, known[port]? = some data → port.index = 0 ∧ graph.Yields port.node data)
    (failed : order.foldlM (Inference.step graph) known = .error error) :
    ∃ node part, graph.node? node.id = some node ∧ graph.Sound part node.id ∧
      inferNode graph part node = .error error := by
  induction order generalizing known with
  | nil => cases failed
  | cons id order ih =>
    rw [List.foldlM_cons] at failed
    cases found : graph.node? id with
    | none =>
      simp only [Inference.step, found] at failed
      exact ih truthful failed
    | some node =>
      have own := wf.node_id found
      subst own
      have sound : graph.Sound known node.id := fun _ source data _ stored => truthful source data stored
      simp only [Inference.step, found] at failed
      cases holds : inferNode graph known node with
      | error other =>
        rw [holds] at failed
        cases failed
        exact ⟨node, known, found, sound, holds⟩
      | ok inferred =>
        rw [holds] at failed
        refine ih (fun port data stored => ?_) failed
        rw [Std.ExtTreeMap.getElem?_insert] at stored
        split at stored
        next same =>
          cases stored
          rw [← Std.compare_eq_iff_eq.mp same]
          exact ⟨rfl, yields_of_inferNode found sound holds⟩
        next => exact truthful port data stored

/-- Evaluation fails for a circle, or with the error of a node that was given what its producers yield. -/
theorem exists_of_infer_eq_error (wf : graph.WellFormed) {error : InferError} (failed : graph.infer = .error error) :
    (∃ circle, error = .graph circle) ∨
      ∃ node known, graph.node? node.id = some node ∧ graph.Sound known node.id ∧
        inferNode graph known node = .error error := by
  unfold infer at failed
  split at failed
  next circle _ =>
    cases failed
    exact .inl ⟨circle, rfl⟩
  next order _ =>
    refine .inr (exists_of_foldlM_step_eq_error wf (fun port data stored => ?_) failed)
    simp at stored

/-- Evaluation succeeds exactly on the graphs without circles in which every node yields something. Its
table then has one entry for each node, about output 0 and with what the node yields, and every other
order of evaluation would have led to it. -/
theorem infer_computes_yields (wf : graph.WellFormed) :
    ((∃ known, graph.infer = .ok known) ↔
      graph.Acyclic ∧ ∀ id, graph.hasNode id → ∃ inferred, graph.Yields id inferred) ∧
    (∀ known, graph.infer = .ok known → ∀ (port : Port) (inferred : Inferred),
      known[port]? = some inferred ↔ port.index = 0 ∧ graph.Yields port.node inferred) ∧
    ∀ order, graph.IsOrder order → ∀ known,
      order.foldlM (Inference.step graph) ∅ = .ok known ↔ graph.infer = .ok known := by
  refine ⟨exists_infer_iff wf, fun known ran => infer_lists wf ran, fun order ordered known => ?_⟩
  have sorted := (exists_topologicalOrder_iff wf).mpr (ordered.ascends wf).acyclic
  rw [ordered.foldlM_step_eq_ok_iff wf, infer_eq_ok_iff wf, and_iff_right sorted]

/-- The shape of a parameter without its last but one axis. -/
def squeezed : Graph := Graph.empty.history
  [.addNode (.result "z"), .addNode { id := "s", kind := .shapeOf, outputType := some .i32 },
    .addNode { id := "q", kind := .squeeze }, .addNode (.const "axes" (.ofInts [-2])),
    .addNode (.parameter "x" (some [2, 1, 3])), .connect ⟨"x", 0⟩ ⟨"q", 0⟩, .connect ⟨"axes", 0⟩ ⟨"q", 1⟩,
    .connect ⟨"q", 0⟩ ⟨"s", 0⟩, .connect ⟨"s", 0⟩ ⟨"z", 0⟩]

theorem infer_computes_yields_squeezed : squeezed.WellFormed ∧ squeezed.IsOrder ["x", "axes", "q", "s", "z"] ∧
    ∃ known, squeezed.infer = .ok known ∧
      ["x", "axes", "q", "s", "z"].foldlM (Inference.step squeezed) ∅ = .ok known ∧
      squeezed.Acyclic ∧ squeezed.Yields "z" (.ofTensor (.ofShape [2, 3] .i32)) ∧
      known[(⟨"z", 1⟩ : Port)]? = none := by
  have wf : squeezed.WellFormed := wellFormed_empty.history _
  have ordered : squeezed.IsOrder ["x", "axes", "q", "s", "z"] := by
    have same : ["x", "axes", "q", "s", "z"].Perm squeezed.nodes.keys := by decide +kernel
    exact ⟨by decide +kernel, fun id => same.mem_iff.trans Std.ExtTreeMap.mem_keys⟩
  obtain ⟨succeeds, lists, every⟩ := infer_computes_yields wf
  have computed : squeezed.infer.isOk ∧ (squeezed.infer.toOption >>= fun known => known[(⟨"z", 0⟩ : Port)]?) =
      some (.ofTensor (.ofShape [2, 3] .i32)) := by decide +kernel
  obtain ⟨evaluates, reads⟩ := computed
  obtain ⟨known, ran⟩ := isOk_iff.mp evaluates
  rw [ran] at reads
  refine ⟨wf, ordered, known, ran, (every _ ordered known).mpr ran, (succeeds.mp ⟨known, ran⟩).1, ?_, ?_⟩
  · exact ((lists known ran _ _).mp reads).2
  · by_contra present
    obtain ⟨inferred, stored⟩ := Option.ne_none_iff_exists'.mp present
    exact absurd ((lists known ran _ _).mp stored).1 (by decide)

end OpGraph.Graph
