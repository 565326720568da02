import OpGraph.Pass.FrontPhase
import OpGraph.Proofs.ChainValues
import OpGraph.Proofs.Cleanup
import OpGraph.Proofs.RankPass

/-! The front phase keeps the values of a graph. Each of its steps carries a solution of the rules over to
the graph that it makes; the last graph has an order, as the phase checks itself, so evaluation finds the
solution that arrived there. -/

namespace OpGraph

namespace RankDecomposition
open OpGraph.Graph

/-- A solution of one graph, carried over to another one in which some nodes were replaced. -/
structure Carried (before : Graph) (known : Known) (after : Graph) (later : Known)
    (replaced : List (NodeId × NodeId)) : Prop where
  wellFormed : after.WellFormed
  solves : after.Solves later
  kept : ∀ {id}, before.hasNode id → id ∉ replaced.map Prod.fst →
    after.hasNode id ∧ later[(⟨id, 0⟩ : Port)]? = known[(⟨id, 0⟩ : Port)]?
  moved : ∀ {old new}, (old, new) ∈ replaced →
    after.hasNode new ∧ later[(⟨new, 0⟩ : Port)]? = known[(⟨old, 0⟩ : Port)]?

theorem Carried.refl {graph : Graph} {known : Known} (wf : graph.WellFormed) (solves : graph.Solves known) :
    Carried graph known graph known [] :=
  ⟨wf, solves, fun present _ => ⟨present, rfl⟩, fun impossible => by cases impossible⟩

/-- A decomposition before the other replacements. -/
theorem Carried.cons {before middle after : Graph} {known later : Known} {rank : Node} {name : String}
    {outputType : ElementType} {chain : Chain} {shape : Shape} {replaced : List (NodeId × NodeId)}
    (carried : Carried middle (chain.known known rank.id shape outputType) after later replaced)
    (decomposed : Decomposed before middle rank.id name outputType chain)
    (value : known[(⟨rank.id, 0⟩ : Port)]? = some (Inference.rankOf shape outputType))
    (absent : rank.id ∉ replaced.map Prod.fst) (present : ∀ id ∈ replaced.map Prod.fst, before.hasNode id) :
    Carried before known after later ((rank.id, chain.squeeze) :: replaced) := by
  refine ⟨carried.wellFormed, carried.solves, ?_, ?_⟩
  · intro id inside unreplaced
    rw [List.map_cons, List.mem_cons, not_or] at unreplaced
    obtain ⟨other, unreplaced⟩ := unreplaced
    obtain ⟨stays, same⟩ := carried.kept ((decomposed.hasNode_iff id).mpr (.inl ⟨inside, other⟩)) unreplaced
    exact ⟨stays, same.trans (decomposed.known_kept known shape inside other)⟩
  · intro old new member
    rcases List.mem_cons.mp member with same | member
    · cases same
      have squeeze : chain.squeeze ∈ chain.ids := by simp [Chain.ids]
      obtain ⟨stays, same⟩ := carried.kept ((decomposed.hasNode_iff chain.squeeze).mpr (.inr squeeze))
        fun reused => decomposed.fresh chain.squeeze squeeze (present _ reused)
      refine ⟨stays, same.trans ?_⟩
      rw [Chain.getElem?_known, if_pos rfl, value]
    · obtain ⟨stays, same⟩ := carried.moved member
      have inside := present old (List.mem_map_of_mem member)
      have other : old ≠ rank.id := fun same => absent (same ▸ List.mem_map_of_mem member)
      exact ⟨stays, same.trans (decomposed.known_kept known shape inside other)⟩

/-- The ranks keep their values until their turn comes. -/
theorem decomposeEach_carries [EdgeIdSupply] {graph : Graph} (wf : graph.WellFormed) {nodes : List Node}
    (stored : ∀ node ∈ nodes, graph.node? node.id = some node) (distinct : (nodes.map Node.id).Nodup)
    (ranks : ∀ node ∈ nodes, node.kind = .rank) {known : Known} (solves : graph.Solves known)
    {replaced : List (NodeId × NodeId)} {after : Graph}
    (ran : graph.edit (decomposeEach nodes) = (.ok replaced, after)) :
    replaced.map Prod.fst = nodes.map Node.id ∧ ∃ later, Carried graph known after later replaced := by
  induction nodes generalizing graph known replaced with
  | nil =>
    cases ran
    exact ⟨rfl, known, .refl wf solves⟩
  | cons rank nodes ih =>
    have found := stored rank (by simp)
    rw [decomposeEach, List.mapM_cons, edit_bind_eq_ok] at ran
    obtain ⟨pair, middle, first, ran⟩ := ran
    obtain ⟨rest, last, others, done⟩ := edit_bind_eq_ok.mp ran
    cases done
    obtain ⟨outputType, passes, chain, same, decomposed⟩ := edit_decomposeNode_eq_ok wf found first
    subst same
    obtain ⟨shape, value, advanced⟩ := decomposed.solves wf (ranks rank (by simp)) passes found solves
    have remaining := decomposed.stored_rest stored distinct
    obtain ⟨absent, distinct⟩ := List.nodup_cons.mp distinct
    obtain ⟨ids, later, carried⟩ := ih decomposed.wellFormed (fun node member => (remaining node member).2.2) distinct
      (fun node member => ranks node (by simp [member])) advanced others
    refine ⟨by rw [List.map_cons, List.map_cons, ids], later, carried.cons decomposed value ?_ ?_⟩
    · rw [ids]
      exact absent
    · intro id member
      rw [ids] at member
      obtain ⟨node, inside, same⟩ := List.mem_map.mp member
      subst same
      exact (remaining node inside).1

end RankDecomposition

namespace FrontPhase
open OpGraph.Graph RankDecomposition

def decomposesRanks [EdgeIdSupply] (phase : FrontPhase) : Bool := phase.registry.isEnabled RankDecomposition.pass.name

def replaced [EdgeIdSupply] (phase : FrontPhase) (graph : Graph) : List (NodeId × NodeId) :=
  if phase.decomposesRanks then (graph.edit (decomposeEach (graph.nodesOfKind .rank))).1.toOption.getD [] else []

theorem edit_runAll [EdgeIdSupply] {phase : FrontPhase}
    (defaults : phase.registry.passes = PassRegistry.frontPhase.passes)
    {graph after : Graph} {stats : List (String × PassStats)}
    (ran : graph.edit phase.registry.runAll = (.ok stats, after)) :
    if phase.decomposesRanks then
      ∃ passStats, stats = [(pass.name, passStats)] ∧ graph.edit pass.run = (.ok passStats, after)
    else stats = [] ∧ after = graph := by
  have only : PassRegistry.frontPhase.passes = [pass] := rfl
  rw [PassRegistry.runAll, defaults, only, List.filter_cons] at ran
  by_cases enabled : phase.decomposesRanks
  · rw [if_pos (show phase.registry.isEnabled pass.name from enabled), List.filter_nil, List.mapM_cons,
      edit_bind_eq_ok] at ran
    obtain ⟨named, middle, ran, rest⟩ := ran
    obtain ⟨stats, last, ran, done⟩ := edit_bind_eq_ok.mp ran
    cases done
    cases rest
    rw [if_pos enabled]
    exact ⟨stats, rfl, ran⟩
  · rw [if_neg (show ¬ phase.registry.isEnabled pass.name from enabled), List.filter_nil] at ran
    cases ran
    rw [if_neg enabled]
    exact ⟨rfl, rfl⟩

theorem edit_checkValid {graph : Graph} (wf : graph.WellFormed) : graph.edit checkValid = (.ok (), graph) := by
  rw [checkValid, edit_bind_ok (edit_get graph), wf.validationErrors_eq_nil]
  rfl

theorem edit_checkAcyclic {graph after : Graph} : graph.edit checkAcyclic = (.ok (), after) ↔
    after = graph ∧ ∃ order, graph.topologicalOrder = .ok order := by
  rw [checkAcyclic, edit_bind_ok (edit_get graph)]
  cases graph.topologicalOrder with
  | error error => simp
  | ok order => simp [eq_comm]

def removed (phase : FrontPhase) (graph : Graph) : List NodeId := if phase.cleanup then graph.deadNodes else []

theorem edit_cleanUp {graph : Graph} (wf : graph.WellFormed) (phase : FrontPhase) :
    ∃ stats after, graph.edit phase.cleanUp = (.ok stats, after) ∧ Pruned graph after (phase.removed graph) := by
  unfold cleanUp removed
  by_cases enabled : phase.cleanup
  · rw [if_pos enabled, if_pos enabled]
    refine ⟨some (PassStats.total (graph.removals graph.deadNodes)), graph.withoutDead, ?_, wf.pruned_withoutDead⟩
    rw [edit_map, edit_inPass, edit_removeDeadNodes wf]
    rfl
  · rw [if_neg enabled, if_neg enabled]
    exact ⟨none, graph, rfl, .refl wf⟩

/-- What feeds a node that stays does stay. -/
theorem not_mem_removed_of_feeds {graph : Graph} (wf : graph.WellFormed) {phase : FrontPhase}
    {producer consumer : NodeId} (feeds : graph.Feeds producer consumer) (stays : consumer ∉ phase.removed graph) :
    producer ∉ phase.removed graph := by
  unfold removed at stays ⊢
  by_cases enabled : phase.cleanup
  · rw [if_pos enabled] at stays ⊢
    exact not_mem_deadNodes_of_feeds wf feeds stays
  · rw [if_neg enabled]
    exact List.not_mem_nil

/-- Cleaning up leaves a solution that has lost entries of removed nodes only. -/
theorem cleanUp_carries {graph after : Graph} (wf : graph.WellFormed) {phase : FrontPhase} {known : Known}
    (solves : graph.Solves known) {stats : Option PassStats} (ran : graph.edit phase.cleanUp = (.ok stats, after)) :
    after.WellFormed ∧ ∃ later, after.Solves later ∧ ∀ id, after.hasNode id →
      ∃ value, known[(⟨id, 0⟩ : Port)]? = some value ∧ later[(⟨id, 0⟩ : Port)]? = some value := by
  obtain ⟨_, _, cleaned, pruned⟩ := edit_cleanUp wf phase
  rw [ran] at cleaned
  cases cleaned
  have later := pruned.solves wf solves (not_mem_removed_of_feeds wf)
  refine ⟨pruned.wellFormed, known.without (phase.removed graph), later, fun id stays => ?_⟩
  obtain ⟨node, found⟩ := exists_node?_of_hasNode stays
  obtain ⟨value, stored, _⟩ := later.rule stays found
  have kept := @Known.getElem?_without known _ ⟨id, 0⟩ (pruned.hasNode_iff.mp stays).2
  exact ⟨value, kept.symm.trans stored, stored⟩

/-- What a successful run of a well-formed graph consists of; the check of the input changes nothing. -/
theorem run_eq_ok {graph : Graph} (wf : graph.WellFormed) {phase : FrontPhase} {after : Graph}
    {report : FrontPhaseReport} :
    phase.run graph = .ok (after, report) ↔
      ∃ middle passes cleanup, graph.edit phase.registry.runAll = (.ok passes, middle) ∧
      middle.edit phase.cleanUp = (.ok cleanup, after) ∧ (∃ order, after.topologicalOrder = .ok order) ∧
      report = ⟨0, graph.nodeCount, after.nodeCount, passes, cleanup⟩ := by
  have run_iff : phase.run graph = .ok (after, report) ↔ graph.edit phase.edit = (.ok report, after) := by
    unfold FrontPhase.run
    split
    next found => simp [found, and_comm]
    next found => simp [found]
  rw [run_iff]
  constructor
  · intro ran
    obtain ⟨_, _, started, checking⟩ := edit_bind_eq_ok.mp ran
    cases started
    obtain ⟨_, initial, checked, running⟩ := edit_bind_eq_ok.mp checking
    rw [edit_checkValid wf] at checked
    cases checked
    obtain ⟨passes, middle, passed, cleaning⟩ := edit_bind_eq_ok.mp running
    obtain ⟨cleanup, last, cleaned, sorting⟩ := edit_bind_eq_ok.mp cleaning
    obtain ⟨_, final, sorted, reporting⟩ := edit_bind_eq_ok.mp sorting
    obtain ⟨same, found⟩ := edit_checkAcyclic.mp sorted
    subst same
    cases reporting
    exact ⟨middle, passes, cleanup, passed, cleaned, found, rfl⟩
  · intro ⟨middle, passes, cleanup, passed, cleaned, found, same⟩
    rw [FrontPhase.edit, edit_bind_ok (edit_get graph), edit_bind_ok (edit_checkValid wf), edit_bind_ok passed,
      edit_bind_ok cleaned, edit_bind_ok (edit_checkAcyclic.mpr ⟨rfl, found⟩), edit_bind_ok (edit_get after),
      edit_pure, same]

theorem run_eq_ok_iff {graph : Graph} (wf : graph.WellFormed) {phase : FrontPhase} {after : Graph} :
    (∃ report, phase.run graph = .ok (after, report)) ↔
      ∃ middle, (∃ stats, graph.edit phase.registry.runAll = (.ok stats, middle)) ∧
        (∃ stats, middle.edit phase.cleanUp = (.ok stats, after)) ∧ ∃ order, after.topologicalOrder = .ok order := by
  constructor
  · intro ⟨report, ran⟩
    obtain ⟨middle, passes, cleanup, passed, cleaned, found, _⟩ := (run_eq_ok wf).mp ran
    exact ⟨middle, ⟨passes, passed⟩, ⟨cleanup, cleaned⟩, found⟩
  · intro ⟨middle, ⟨passes, passed⟩, ⟨cleanup, cleaned⟩, found⟩
    exact ⟨_, (run_eq_ok wf).mpr ⟨middle, passes, cleanup, passed, cleaned, found, rfl⟩⟩

theorem passes_carry [EdgeIdSupply] {phase : FrontPhase}
    (defaults : phase.registry.passes = PassRegistry.frontPhase.passes)
    {graph middle : Graph} {known : Known} (wf : graph.WellFormed) (solves : graph.Solves known)
    {stats : List (String × PassStats)} (ran : graph.edit phase.registry.runAll = (.ok stats, middle)) :
    (phase.replaced graph).map Prod.fst =
        (if phase.decomposesRanks then (graph.nodesOfKind .rank).map Node.id else []) ∧
      ∃ later, Carried graph known middle later (phase.replaced graph) := by
  have effect := edit_runAll defaults ran
  unfold replaced
  by_cases enabled : phase.decomposesRanks
  · rw [if_pos enabled] at effect ⊢
    obtain ⟨_, _, passed⟩ := effect
    obtain ⟨replaced, decomposed⟩ := pass_eq_ok passed
    rw [if_pos enabled, decomposed]
    exact decomposeEach_carries wf (fun node member => (wf.mem_nodesOfKind.mp member).1) (wf.nodup_nodesOfKind .rank)
      (fun node member => (wf.mem_nodesOfKind.mp member).2) solves decomposed
  · rw [if_neg enabled] at effect ⊢
    obtain ⟨_, rfl⟩ := effect
    rw [if_neg enabled]
    exact ⟨rfl, known, .refl wf solves⟩

/-- The front phase keeps what the nodes evaluate to. The nodes that it replaced are all ranks, or none of
them if their decomposition is disabled, and what stands for a rank has its value. -/
theorem run_preserves_values [EdgeIdSupply] {phase : FrontPhase}
    (defaults : phase.registry.passes = PassRegistry.frontPhase.passes) {graph after : Graph} (wf : graph.WellFormed)
    {known : Known} (inferred : graph.infer = .ok known) {report : FrontPhaseReport}
    (ran : phase.run graph = .ok (after, report)) :
    (phase.replaced graph).map Prod.fst =
        (if phase.decomposesRanks then (graph.nodesOfKind .rank).map Node.id else []) ∧
      ∃ later, after.infer = .ok later ∧
        (∀ id, graph.hasNode id → id ∉ (phase.replaced graph).map Prod.fst → after.hasNode id →
          ∃ value, known[(⟨id, 0⟩ : Port)]? = some value ∧ later[(⟨id, 0⟩ : Port)]? = some value) ∧
        ∀ rank squeeze, (rank, squeeze) ∈ phase.replaced graph → after.hasNode squeeze →
          ∃ value, known[(⟨rank, 0⟩ : Port)]? = some value ∧ later[(⟨squeeze, 0⟩ : Port)]? = some value := by
  obtain ⟨_, solves⟩ := (infer_eq_ok_iff wf).mp inferred
  obtain ⟨middle, ⟨_, passed⟩, ⟨_, cleaned⟩, sorted⟩ := (run_eq_ok_iff wf).mp ⟨report, ran⟩
  obtain ⟨ranks, carriedKnown, carried⟩ := passes_carry defaults wf solves passed
  obtain ⟨afterWf, later, afterSolves, settled⟩ := cleanUp_carries carried.wellFormed carried.solves cleaned
  refine ⟨ranks, later, (infer_eq_ok_iff afterWf).mpr ⟨sorted, afterSolves⟩, ?_, ?_⟩
  · intro id present unreplaced stays
    obtain ⟨value, before, stored⟩ := settled id stays
    exact ⟨value, (carried.kept present unreplaced).2.symm.trans before, stored⟩
  · intro rank squeeze member stays
    obtain ⟨value, before, stored⟩ := settled squeeze stays
    exact ⟨value, (carried.moved member).2.symm.trans before, stored⟩

/-- The rank of a parameter with a static shape, beside a constant that feeds nothing. -/
def measured : Graph := Graph.empty.history
  [.addNode (.parameter "x" (some [2, 3])), .addNode { id := "r", kind := .rank, outputType := some .i64 },
    .addNode (.result "z"), .addNode (.const "c" (.scalar 7)),
    .connect ⟨"x", 0⟩ ⟨"r", 0⟩, .connect ⟨"r", 0⟩ ⟨"z", 0⟩]

theorem run_preserves_values_measured : measured.WellFormed ∧
    ∃ known after report, measured.infer = .ok known ∧ standard.run measured = .ok (after, report) ∧
      after.hasNode "z" ∧ after.hasNode "r/0d_rank_of" ∧ ¬ after.hasNode "c" ∧
      ∃ later, after.infer = .ok later ∧
        (∃ value, known[(⟨"z", 0⟩ : Port)]? = some value ∧ later[(⟨"z", 0⟩ : Port)]? = some value) ∧
        ∃ value, known[(⟨"r", 0⟩ : Port)]? = some value ∧ later[(⟨"r/0d_rank_of", 0⟩ : Port)]? = some value := by
  have wf : measured.WellFormed := wellFormed_empty.history _
  let middle := (measured.edit standard.registry.runAll).2
  let after := (middle.edit standard.cleanUp).2
  have computed : measured.infer.isOk ∧ (measured.edit standard.registry.runAll).1.isOk ∧
      (middle.edit standard.cleanUp).1.isOk ∧ after.topologicalOrder.isOk ∧
      standard.replaced measured = [("r", "r/0d_rank_of")] ∧ measured.hasNode "z" ∧
      after.hasNode "z" ∧ after.hasNode "r/0d_rank_of" ∧ ¬ after.hasNode "c" := by decide +kernel
  obtain ⟨evaluates, passes, cleans, sorts, stands, present, result, squeeze, dead⟩ := computed
  obtain ⟨known, inferred⟩ := isOk_iff.mp evaluates
  obtain ⟨stats, passed⟩ := isOk_iff.mp passes
  obtain ⟨removed, cleaned⟩ := isOk_iff.mp cleans
  obtain ⟨report, ran⟩ : ∃ report, standard.run measured = .ok (after, report) :=
    (run_eq_ok_iff wf).mpr ⟨middle, ⟨stats, edit_eq_of_fst passed⟩, ⟨removed, edit_eq_of_fst cleaned⟩,
      isOk_iff.mp sorts⟩
  obtain ⟨_, later, evaluated, kept, moved⟩ := run_preserves_values rfl wf inferred ran
  refine ⟨wf, known, after, report, inferred, ran, result, squeeze, dead, later, evaluated, ?_, ?_⟩
  · exact kept "z" present (by simp [stands]) result
  · exact moved "r" "r/0d_rank_of" (by simp [stands]) squeeze

end FrontPhase
end OpGraph
