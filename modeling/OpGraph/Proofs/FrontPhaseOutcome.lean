import OpGraph.Proofs.FrontPhase
import OpGraph.Proofs.LiveNodes
import Mathlib.Algebra.Ring.Int.Defs

/-! What a run of the front phase guarantees. Of the nodes of the input only decomposed ranks and dead nodes
can be missing from the outcome, and the report accounts for every node that came or went. The last check
of the phase never fails on its own account: a circle at the end was there at the start. -/

namespace OpGraph.FrontPhase
open OpGraph.Graph RankDecomposition

/-- What a successful run guarantees of the graph that it returns, and of its report. -/
structure Outcome [EdgeIdSupply] (phase : FrontPhase) (graph after : Graph) (report : FrontPhaseReport) : Prop where
  wellFormed : after.WellFormed
  acyclic : after.Acyclic
  results : ∀ id node, graph.node? id = some node → node.kind = .result → after.node? id = some node
  noRanks : phase.decomposesRanks → ∀ id node, after.node? id = some node → node.kind ≠ .rank
  live : phase.cleanup → (∃ id node, graph.node? id = some node ∧ node.kind = .result) →
    ∀ id, after.hasNode id → ∃ target node, after.node? target = some node ∧ node.kind = .result ∧
      after.Reaches id target
  kept : ∀ id node, graph.node? id = some node → (phase.decomposesRanks → node.kind ≠ .rank) → after.hasNode id →
    after.node? id = some node
  matched : report.totalMatches = if phase.decomposesRanks then (graph.nodesOfKind .rank).length else 0
  initial : report.initialNodeCount = graph.nodeCount
  final : report.finalNodeCount = after.nodeCount
  balance : (report.finalNodeCount : Int) = report.initialNodeCount
    + ((report.passes.map Prod.snd).map PassStats.nodeGain).sum -
      ((report.cleanup.map PassStats.nodesRemoved).getD 0 : Nat)

def ranks [EdgeIdSupply] (phase : FrontPhase) (graph : Graph) : List NodeId :=
  if phase.decomposesRanks then (graph.nodesOfKind .rank).map Node.id else []

theorem mem_ranks [EdgeIdSupply] {phase : FrontPhase} {graph : Graph} (wf : graph.WellFormed)
    {id : NodeId} {node : Node}
    (found : graph.node? id = some node) : id ∈ phase.ranks graph ↔ phase.decomposesRanks ∧ node.kind = .rank := by
  unfold ranks
  split
  next enabled =>
    simp only [List.mem_map, enabled, true_and]
    constructor
    · rintro ⟨rank, member, rfl⟩
      obtain ⟨known, kind⟩ := wf.mem_nodesOfKind.mp member
      cases known.symm.trans found
      exact kind
    · intro kind
      have own := wf.node_id found
      subst own
      exact ⟨node, wf.mem_nodesOfKind.mpr ⟨found, kind⟩, rfl⟩
  next disabled => simp [disabled]

variable {phase : FrontPhase} {graph middle after : Graph}

/-! ## The stages -/

theorem runAll_rewrites [EdgeIdSupply] (defaults : phase.registry.passes = PassRegistry.frontPhase.passes)
    (wf : graph.WellFormed)
    {passes : List (String × PassStats)} (ran : graph.edit phase.registry.runAll = (.ok passes, middle)) :
    Rewritten graph middle (phase.ranks graph) := by
  have effect := edit_runAll defaults ran
  unfold ranks
  split
  next enabled =>
    rw [if_pos enabled] at effect
    obtain ⟨_, _, passed⟩ := effect
    obtain ⟨replaced, decomposed⟩ := pass_eq_ok passed
    exact decomposeEach_rewrites wf (fun node member => (wf.mem_nodesOfKind.mp member).1)
      (wf.nodup_nodesOfKind .rank) decomposed
  next disabled =>
    rw [if_neg disabled] at effect
    obtain ⟨_, rfl⟩ := effect
    exact .refl wf

theorem runAll_reports [EdgeIdSupply] (defaults : phase.registry.passes = PassRegistry.frontPhase.passes)
    {passes : List (String × PassStats)} (ran : graph.edit phase.registry.runAll = (.ok passes, middle)) :
    (PassStats.total (passes.map Prod.snd)).matched = (phase.ranks graph).length ∧
      ((passes.map Prod.snd).map PassStats.nodeGain).sum = 3 * (phase.ranks graph).length := by
  have effect := edit_runAll defaults ran
  unfold ranks
  split
  next enabled =>
    rw [if_pos enabled] at effect
    obtain ⟨stats, rfl, passed⟩ := effect
    obtain ⟨matched, added, removed⟩ := pass_stats passed
    have one : ∀ each ∈ [stats], each.matched = (graph.nodesOfKind .rank).length := by simpa using matched
    constructor
    · rw [List.map_singleton, PassStats.total_matched one, List.length_map, List.length_singleton, Nat.one_mul]
    · rw [List.map_singleton, List.map_singleton, List.sum_singleton, PassStats.nodeGain, added, removed,
        List.length_map]
      omega
  next disabled =>
    rw [if_neg disabled] at effect
    obtain ⟨rfl, _⟩ := effect
    exact ⟨rfl, rfl⟩

theorem cleanUp_reports {cleanup : Option PassStats} (ran : middle.edit phase.cleanUp = (.ok cleanup, after)) :
    (cleanup.map PassStats.nodesRemoved).getD 0 = (phase.removed middle).length := by
  unfold cleanUp at ran
  unfold removed
  split at ran
  next enabled =>
    rw [edit_map, edit_inPass] at ran
    cases outcome : middle.edit removeDeadNodes with
    | mk result last =>
      rw [outcome] at ran
      cases result with
      | error error => cases ran
      | ok stats =>
        cases ran
        rw [if_pos enabled]
        exact removeDeadNodes_nodesRemoved outcome
  next disabled =>
    cases ran
    rw [if_neg disabled]
    rfl

theorem nodup_removed (wf : graph.WellFormed) : (phase.removed graph).Nodup := by
  unfold removed
  split
  · exact nodup_deadNodes wf
  · exact List.nodup_nil

theorem hasNode_of_mem_removed (wf : graph.WellFormed) {id : NodeId} (member : id ∈ phase.removed graph) :
    graph.hasNode id := by
  unfold removed at member
  split at member
  · exact ((mem_deadNodes wf).mp member).1
  · cases member

theorem result_not_mem_removed (wf : graph.WellFormed) {id : NodeId} {node : Node} (found : graph.node? id = some node)
    (kind : node.kind = .result) : id ∉ phase.removed graph := by
  have own := wf.node_id found
  subst own
  have results := List.ne_nil_of_mem (wf.mem_nodesOfKind.mpr ⟨found, kind⟩)
  unfold removed
  split
  · exact (not_mem_deadNodes_iff wf results (hasNode_of_node? found)).mpr (leadsToResult_of_kind found kind)
  · exact List.not_mem_nil

/-! ## The run -/

theorem outcome_of_stages [EdgeIdSupply] {passes : List (String × PassStats)} {cleanup : Option PassStats}
    (defaults : phase.registry.passes = PassRegistry.frontPhase.passes) (wf : graph.WellFormed)
    (passed : graph.edit phase.registry.runAll = (.ok passes, middle))
    (cleaned : middle.edit phase.cleanUp = (.ok cleanup, after)) (acyclic : after.Acyclic) :
    Outcome phase graph after ⟨0, graph.nodeCount, after.nodeCount, passes, cleanup⟩ := by
  have rewritten := runAll_rewrites defaults wf passed
  have middleWf := rewritten.wellFormed
  obtain ⟨_, _, ran, pruned⟩ := edit_cleanUp middleWf phase
  cases cleaned.symm.trans ran
  obtain ⟨matched, balance⟩ := runAll_reports defaults passed
  have still {id : NodeId} (stays : id ∉ phase.removed middle) : after.node? id = middle.node? id := by
    rw [pruned.node?, if_neg stays]
  have results {id : NodeId} {node : Node} (found : graph.node? id = some node) (kind : node.kind = .result) :
      middle.node? id = some node := by
    have unranked : id ∉ phase.ranks graph := fun member => by
      cases ((mem_ranks wf found).mp member).2.symm.trans kind
    exact (rewritten.kept (hasNode_of_node? found) unranked).trans found
  refine {
    wellFormed := pruned.wellFormed, acyclic, results := ?results, noRanks := ?noRanks, live := ?live, kept := ?kept,
    matched := ?matched, initial := rfl, final := rfl, balance := ?balance }
  case results =>
    intro id node found kind
    have known := results found kind
    exact (still (result_not_mem_removed middleWf known kind)).trans known
  case noRanks =>
    intro enabled id node found kind
    have stays := (pruned.hasNode_iff.mp (hasNode_of_node? found)).2
    obtain ⟨before, unranked⟩ := rewritten.rank ((still stays).symm.trans found) kind
    exact unranked ((mem_ranks wf before).mpr ⟨enabled, kind⟩)
  case live =>
    intro enabled ⟨first, node, found, kind⟩ id stays
    have known := results found kind
    have member := middleWf.mem_nodesOfKind.mpr ⟨(middleWf.node_id known).symm ▸ known, kind⟩
    rw [removed, if_pos enabled] at pruned
    exact (pruned.livePart middleWf (List.ne_nil_of_mem member)).live id stays
  case kept =>
    intro id node found unranked stays
    have unranked : id ∉ phase.ranks graph := fun member =>
      unranked ((mem_ranks wf found).mp member).1 ((mem_ranks wf found).mp member).2
    rw [still (pruned.hasNode_iff.mp stays).2, rewritten.kept (hasNode_of_node? found) unranked, found]
  case matched =>
    rw [FrontPhaseReport.totalMatches, matched, ranks]
    split
    · rw [List.length_map]
    · rfl
  case balance =>
    have removed := cleanUp_reports cleaned
    have middleCount := rewritten.nodeCount
    have afterCount := pruned.nodeCount (nodup_removed middleWf) fun _ => hasNode_of_mem_removed middleWf
    rw [balance, removed]
    simp only
    omega

theorem runAll_ne_cycle [EdgeIdSupply] (defaults : phase.registry.passes = PassRegistry.frontPhase.passes)
    (wf : graph.WellFormed)
    (id : NodeId) : (graph.edit phase.registry.runAll).1 ≠ .error (.graph (.cycleDetected id)) := by
  intro circle
  have only {each : Pass} (member : each ∈ phase.registry.passes.filter fun each =>
      phase.registry.isEnabled each.name) :
      each = pass := by
    rw [defaults] at member
    exact List.mem_singleton.mp (List.mem_of_mem_filter member)
  obtain ⟨each, member, middle, middleWf, failed⟩ := exists_of_edit_mapM_eq_error (fun each member => by
    rw [only member]
    exact .bind keeps_pass fun _ => .pure _) wf circle
  rw [only member, edit_bind_pure] at failed
  exact pass_ne_cycle middleWf id (map_eq_error.mp failed)

/-- An acyclic graph is not refused for a circle, whatever else is wrong with it. -/
theorem run_ne_cycle [EdgeIdSupply] (defaults : phase.registry.passes = PassRegistry.frontPhase.passes)
    (wf : graph.WellFormed)
    (acyclic : graph.Acyclic) (id : NodeId) : phase.run graph ≠ .error (.graph (.cycleDetected id)) := by
  cases outcome : graph.edit phase.registry.runAll with
  | mk result middle =>
    cases result with
    | ok passes =>
      have rewritten := runAll_rewrites defaults wf outcome
      obtain ⟨cleanup, after, cleaned, pruned⟩ := edit_cleanUp rewritten.wellFormed phase
      have sorted := (exists_topologicalOrder_iff pruned.wellFormed).mpr
        (pruned.acyclic rewritten.wellFormed (rewritten.acyclic acyclic))
      rw [(run_eq_ok wf).mpr ⟨middle, passes, cleanup, outcome, cleaned, sorted, rfl⟩]
      nofun
    | error error =>
      have refused : phase.run graph = .error error := by
        have failed : graph.edit phase.edit = (.error error, middle) := by
          rw [FrontPhase.edit, edit_bind_ok (edit_get graph), edit_bind_ok (edit_checkValid wf),
            edit_bind_error outcome]
        rw [FrontPhase.run, failed]
      rw [refused]
      intro circle
      cases circle
      exact runAll_ne_cycle defaults wf id (congrArg Prod.fst outcome)

/-- What a run guarantees, whatever passes are disabled and whether or not dead nodes are removed. -/
theorem run_outcome [EdgeIdSupply] (defaults : phase.registry.passes = PassRegistry.frontPhase.passes)
    (wf : graph.WellFormed) :
    (graph.Acyclic → ∀ id, phase.run graph ≠ .error (.graph (.cycleDetected id))) ∧
      ∀ after report, phase.run graph = .ok (after, report) → Outcome phase graph after report := by
  refine ⟨run_ne_cycle defaults wf, fun after report ran => ?_⟩
  obtain ⟨middle, passes, cleanup, passed, cleaned, sorted, rfl⟩ := (run_eq_ok wf).mp ran
  obtain ⟨_, _, ran, pruned⟩ := edit_cleanUp (runAll_rewrites defaults wf passed).wellFormed phase
  cases cleaned.symm.trans ran
  exact outcome_of_stages defaults wf passed cleaned ((exists_topologicalOrder_iff pruned.wellFormed).mp sorted)

/-- The rank is decomposed, and the constant is removed. -/
theorem run_outcome_measured : measured.WellFormed ∧ measured.Acyclic ∧
    (∀ id, standard.run measured ≠ .error (.graph (.cycleDetected id))) ∧
    ∃ after report, standard.run measured = .ok (after, report) ∧ Outcome standard measured after report ∧
      report.totalMatches = 1 ∧ report.initialNodeCount = 4 ∧ report.finalNodeCount = 6 := by
  have wf : measured.WellFormed := wellFormed_empty.history _
  let middle := (measured.edit standard.registry.runAll).2
  let after := (middle.edit standard.cleanUp).2
  have computed : measured.topologicalOrder.isOk ∧ (measured.edit standard.registry.runAll).1.isOk ∧
      (middle.edit standard.cleanUp).1.isOk ∧ after.topologicalOrder.isOk ∧
      (measured.nodesOfKind .rank).length = 1 ∧ measured.nodeCount = 4 ∧ after.nodeCount = 6 := by decide +kernel
  obtain ⟨sorts, passes, cleans, sortsAfter, ranks, initial, final⟩ := computed
  have acyclic := (exists_topologicalOrder_iff wf).mp (isOk_iff.mp sorts)
  obtain ⟨stats, passed⟩ := isOk_iff.mp passes
  obtain ⟨removed, cleaned⟩ := isOk_iff.mp cleans
  have passed : measured.edit standard.registry.runAll = (.ok stats, middle) := edit_eq_of_fst passed
  have cleaned : middle.edit standard.cleanUp = (.ok removed, after) := edit_eq_of_fst cleaned
  clear_value after middle
  have ran : standard.run measured = .ok (after, ⟨0, measured.nodeCount, after.nodeCount, stats, removed⟩) :=
    (run_eq_ok wf).mpr ⟨middle, stats, removed, passed, cleaned, isOk_iff.mp sortsAfter, rfl⟩
  have defaults : standard.registry.passes = PassRegistry.frontPhase.passes := rfl
  obtain ⟨noCycle, guarantees⟩ := run_outcome defaults wf
  have outcome := guarantees after _ ran
  refine ⟨wf, acyclic, noCycle acyclic, after, _, ran, outcome, ?_, initial, final⟩
  exact outcome.matched.trans ranks

end OpGraph.FrontPhase
