import OpGraph.Proofs.Decomposition
import OpGraph.Proofs.Histories

/-! When the decomposition of all ranks succeeds. Every rank is checked on the original graph, but a
decomposition cuts the edges that leave other ports of the rank than the first. A rank that such an edge
feeds passes its check and yet cannot be decomposed after the rank at the other end. -/

namespace OpGraph

/-! ## Replacing all nodes of a kind -/

namespace Replacement
open OpGraph.Graph

variable {graph : Graph}

theorem edit_replaceAll_error (replacement : Replacement) {error : PassError}
    (fails : (graph.nodesOfKind replacement.kind).forM (replacement.check graph) = .error error) :
    graph.edit replacement.replaceAll = (.error error, graph) := by
  have checked := edit_forM_liftM graph (replacement.check graph) (graph.nodesOfKind replacement.kind)
  rw [fails] at checked
  rw [replaceAll, edit_bind_ok (edit_get graph)]
  exact edit_bind_error checked _

theorem edit_replaceAll_ok (replacement : Replacement)
    (passed : ∀ node ∈ graph.nodesOfKind replacement.kind, replacement.check graph node = .ok ()) :
    graph.edit replacement.replaceAll =
      ((graph.edit ((graph.nodesOfKind replacement.kind).mapM fun node => replacement.replace node.id)).1.map
          PassStats.total,
        (graph.edit ((graph.nodesOfKind replacement.kind).mapM fun node => replacement.replace node.id)).2) := by
  have checked := edit_forM_liftM graph (replacement.check graph) (graph.nodesOfKind replacement.kind)
  rw [forM_eq_ok.mpr passed] at checked
  rw [replaceAll, edit_bind_ok (edit_get graph), ← edit_bind_pure]
  exact edit_bind_ok checked _

end Replacement

namespace RankDecomposition
open OpGraph.Graph

def Decomposable (graph : Graph) (node : Node) : Prop :=
  (node.outputType = some .i32 ∨ node.outputType = some .i64) ∧ (graph.inEdge? ⟨node.id, 0⟩).isSome

instance (graph : Graph) (node : Node) : Decidable (Decomposable graph node) :=
  inferInstanceAs (Decidable (_ ∧ _))

/-- The first node feeds the second one from a port that its replacement does not have. -/
def cuts (graph : Graph) (first second : Node) : Bool :=
  (graph.producer? ⟨second.id, 0⟩).any fun source => source.node == first.id && source.index != 0

/-- Some rank is cut off by the decomposition of one before it. -/
def Severed (graph : Graph) : Prop :=
  ∃ first ∈ graph.nodesOfKind .rank, ∃ second ∈ graph.nodesOfKind .rank,
    first.id < second.id ∧ cuts graph first second

instance (graph : Graph) : Decidable (Severed graph) :=
  inferInstanceAs (Decidable (∃ first ∈ graph.nodesOfKind .rank, _))

theorem decomposable_iff {graph : Graph} {node : Node} :
    Decomposable graph node ↔ ∃ outputType, RankDecomposition.outputType graph node = .ok outputType := by
  simp only [outputType_eq_ok, Decomposable, isSome_inEdge?]
  constructor
  · intro ⟨declared, connected⟩
    cases declared with
    | inl declared => exact ⟨.i32, declared, rfl, connected⟩
    | inr declared => exact ⟨.i64, declared, rfl, connected⟩
  · intro ⟨outputType, declared, index, connected⟩
    refine ⟨?_, connected⟩
    cases outputType <;> simp_all [ElementType.isIndex]

/-! ## One decomposition -/

namespace Decomposed

variable {before after : Graph} {rank : Node} {name : String} {outputType : ElementType} {chain : Chain}

theorem decomposable_iff (decomposed : Decomposed before after rank.id name outputType chain) {node : Node}
    (present : before.hasNode node.id) (other : node.id ≠ rank.id) :
    Decomposable after node ↔ Decomposable before node ∧ ¬ cuts before rank node := by
  have moved := @decomposed.producer?_kept ⟨node.id, 0⟩ present other
  simp only [Decomposable, isSome_inEdge?, cuts, moved, and_assoc]
  cases before.producer? ⟨node.id, 0⟩ with
  | none => simp
  | some source =>
    by_cases here : source.node = rank.id
    · by_cases first : source.index = 0 <;> simp [relocate, here, first]
    · simp [relocate, here]

theorem cuts_eq (decomposed : Decomposed before after rank.id name outputType chain) {first second : Node}
    (present : before.hasNode second.id) (firstOther : first.id ≠ rank.id) (secondOther : second.id ≠ rank.id) :
    cuts after first second = cuts before first second := by
  have moved := @decomposed.producer?_kept ⟨second.id, 0⟩ present secondOther
  simp only [cuts, moved]
  cases before.producer? ⟨second.id, 0⟩ with
  | none => rfl
  | some source =>
    by_cases here : source.node = rank.id
    · by_cases zero : source.index = 0 <;> simp [relocate, here, zero, firstOther.symm]
    · simp [relocate, here]

/-- The nodes whose turn comes later are still there as they were. -/
theorem stored_rest (decomposed : Decomposed before after rank.id name outputType chain) {nodes : List Node}
    (stored : ∀ node ∈ rank :: nodes, before.node? node.id = some node)
    (distinct : ((rank :: nodes).map Node.id).Nodup) :
    ∀ node ∈ nodes, before.hasNode node.id ∧ node.id ≠ rank.id ∧ after.node? node.id = some node := by
  obtain ⟨absent, _⟩ := List.nodup_cons.mp distinct
  intro node member
  have found := stored node (List.mem_cons_of_mem rank member)
  have present := hasNode_of_node? found
  have other : node.id ≠ rank.id := fun same => absent (same ▸ List.mem_map_of_mem member)
  exact ⟨present, other, (decomposed.node?_kept present other).trans found⟩

/-- No inserted node is a rank, not even where it takes over the id of one. -/
theorem node?_of_rank (decomposed : Decomposed before after rank.id name outputType chain) {id : NodeId} {node : Node}
    (found : after.node? id = some node) (kind : node.kind = .rank) :
    before.node? id = some node ∧ id ≠ rank.id := by
  rcases (decomposed.hasNode_iff id).mp (hasNode_of_node? found) with ⟨present, other⟩ | inserted
  · rw [decomposed.node?_kept present other] at found
    exact ⟨found, other⟩
  · have known : ∃ new ∈ chain.nodes name outputType, new.id = id := List.mem_map.mp inserted
    obtain ⟨new, member, same⟩ := known
    subst same
    rw [decomposed.node?_chain new member] at found
    cases found
    simp only [Chain.nodes, List.mem_cons, List.not_mem_nil, or_false] at member
    rcases member with same | same | same | same <;> rw [same] at kind <;> cases kind

end Decomposed

theorem not_severed_iff {graph : Graph} (wf : graph.WellFormed) :
    ¬ Severed graph ↔ (graph.nodesOfKind .rank).Pairwise fun first second => ¬ cuts graph first second := by
  have ascending := wf.nodesOfKind_ascending .rank
  constructor
  · intro whole
    refine ascending.imp_of_mem ?_
    intro first second firstMember secondMember below cut
    exact whole ⟨first, firstMember, second, secondMember, below, cut⟩
  · intro pairs ⟨first, firstMember, second, secondMember, below, cut⟩
    let Apart (first second : Node) : Prop := first.id < second.id → ¬ cuts graph first second
    have irreflexive : ∀ node ∈ graph.nodesOfKind .rank, Apart node node := fun _ _ impossible =>
      absurd impossible (String.lt_irrefl _)
    have forward : (graph.nodesOfKind .rank).Pairwise Apart := by
      refine pairs.imp ?_
      intro first second whole _
      exact whole
    have backward : (graph.nodesOfKind .rank).Pairwise (flip Apart) := ascending.imp fun below above =>
      absurd above (String.lt_asymm below)
    exact forward.forall_of_forall_of_flip irreflexive backward firstMember secondMember below cut

/-! ## All decompositions -/

section Passes

variable [EdgeIdSupply]

def decomposeNode (node : Node) : Edit PassError (NodeId × NodeId) := do
  return (node.id, ← decompose node.id)

def decomposeEach (nodes : List Node) : Edit PassError (List (NodeId × NodeId)) := nodes.mapM decomposeNode

theorem edit_decomposeNode_ok {graph after : Graph} {node : Node} {squeeze : NodeId}
    (ran : graph.edit (decompose node.id) = (.ok squeeze, after)) :
    graph.edit (decomposeNode node) = (.ok (node.id, squeeze), after) := by
  rw [decomposeNode, edit_bind_ok ran, edit_pure]

theorem edit_decomposeNode_error {graph after : Graph} {node : Node} {error : PassError}
    (refused : graph.edit (decompose node.id) = (.error error, after)) :
    graph.edit (decomposeNode node) = (.error error, after) := by
  rw [decomposeNode, edit_bind_error refused]

theorem edit_decomposeNode_eq_ok {graph after : Graph} (wf : graph.WellFormed) {node : Node}
    (found : graph.node? node.id = some node) {pair : NodeId × NodeId}
    (ran : graph.edit (decomposeNode node) = (.ok pair, after)) :
    ∃ expected, outputType graph node = .ok expected ∧ ∃ chain : Chain, pair = (node.id, chain.squeeze) ∧
      Decomposed graph after node.id node.softName expected chain := by
  cases passes : outputType graph node with
  | error error =>
    rw [edit_decomposeNode_error (edit_decompose_error found passes)] at ran
    cases ran
  | ok expected =>
    obtain ⟨chain, middle, first, decomposed⟩ := edit_decompose_ok wf found passes
    rw [edit_decomposeNode_ok first] at ran
    cases ran
    exact ⟨expected, rfl, chain, rfl, decomposed⟩

/-- The pass differs from the decompositions that it consists of in what it reports. -/
theorem edit_replaceEach (graph : Graph) (nodes : List Node) :
    (graph.edit (nodes.mapM fun node => replacement.replace node.id)).1.isOk =
        (graph.edit (decomposeEach nodes)).1.isOk ∧
      (graph.edit (nodes.mapM fun node => replacement.replace node.id)).2 =
        (graph.edit (decomposeEach nodes)).2 := by
  induction nodes generalizing graph with
  | nil => exact ⟨rfl, rfl⟩
  | cons node nodes ih =>
    let replaceNode (node : Node) : Edit PassError PassStats := replace node.id
    change (graph.edit ((node :: nodes).mapM replaceNode)).1.isOk = _ ∧
      (graph.edit ((node :: nodes).mapM replaceNode)).2 = _
    unfold decomposeEach at ih ⊢
    cases outcome : graph.edit (decompose node.id) with
    | mk result after =>
      cases result with
      | error error =>
        have refused : graph.edit (replaceNode node) = (.error error, after) := by
          rw [show replaceNode node = replace node.id from rfl, replace, edit_bind_ok (edit_get graph), edit_bind_error]
          rw [edit_discard, outcome]
          rfl
        rw [edit_mapM_cons_error refused, edit_mapM_cons_error (edit_decomposeNode_error outcome)]
        exact ⟨rfl, rfl⟩
      | ok squeeze =>
        have ran : graph.edit (replaceNode node) = (.ok (statsOf graph node.id), after) := by
          rw [show replaceNode node = replace node.id from rfl, replace, edit_bind_ok (edit_get graph),
            edit_bind_ok (edit_discard_ok outcome), edit_pure]
        rw [edit_mapM_cons_ok ran, edit_mapM_cons_ok (edit_decomposeNode_ok outcome)]
        obtain ⟨same, graphs⟩ := ih after
        exact ⟨by rw [isOk_map, isOk_map]; exact same, graphs⟩

/-- Each decomposition decides its own check and adds, to those of the nodes after it, that it cuts none
of them off. -/
theorem decomposeEach_isOk_iff {graph : Graph} (wf : graph.WellFormed) {nodes : List Node}
    (stored : ∀ node ∈ nodes, graph.node? node.id = some node) (distinct : (nodes.map Node.id).Nodup) :
    (graph.edit (decomposeEach nodes)).1.isOk ↔
      (∀ node ∈ nodes, Decomposable graph node) ∧
        nodes.Pairwise fun first second => ¬ cuts graph first second := by
  induction nodes generalizing graph with
  | nil => simp [decomposeEach, Except.isOk, Except.toBool]
  | cons rank nodes ih =>
    have found := stored rank (by simp)
    cases passes : outputType graph rank with
    | error error =>
      have fails : ¬ Decomposable graph rank := by simp [decomposable_iff, passes]
      rw [decomposeEach, edit_mapM_cons_error (edit_decomposeNode_error (edit_decompose_error found passes))]
      simp [fails, Except.isOk, Except.toBool]
    | ok outputType =>
      obtain ⟨chain, after, ran, decomposed⟩ := edit_decompose_ok wf found passes
      -- What the first rank cuts off fails from here on; how the others cut each other off stays the same.
      have here : Decomposable graph rank := decomposable_iff.mpr ⟨outputType, passes⟩
      have rest := decomposed.stored_rest stored distinct
      have checks : (∀ node ∈ nodes, Decomposable after node) ↔
          (∀ node ∈ nodes, Decomposable graph node) ∧ ∀ node ∈ nodes, ¬ cuts graph rank node := by
        rw [← forall₂_and]
        refine forall₂_congr fun node member => ?_
        obtain ⟨present, other, _⟩ := rest node member
        exact decomposed.decomposable_iff present other
      have pairs : (nodes.Pairwise fun first second => ¬ cuts after first second) ↔
          nodes.Pairwise fun first second => ¬ cuts graph first second := by
        apply List.Pairwise.iff_of_mem
        intro first second firstMember secondMember
        obtain ⟨_, firstOther, _⟩ := rest first firstMember
        obtain ⟨present, secondOther, _⟩ := rest second secondMember
        rw [decomposed.cuts_eq present firstOther secondOther]
      have remaining : ∀ node ∈ nodes, after.node? node.id = some node := fun node member => (rest node member).2.2
      have later := ih decomposed.wellFormed remaining (List.nodup_cons.mp distinct).2
      rw [decomposeEach, edit_mapM_cons_ok (edit_decomposeNode_ok ran), isOk_map]
      rw [← decomposeEach, later, checks, pairs, List.forall_mem_cons,
        List.pairwise_cons, and_iff_right here, and_assoc]

/-- A node that is no rank does not become one. -/
theorem keeps_not_rank (id : NodeId) (nodes : List Node) :
    Edit.Keeps (fun graph => graph.WellFormed ∧ ∀ node, graph.node? id = some node → node.kind ≠ .rank)
      (decomposeEach nodes) := by
  refine .mapM (fun rank => ?_) nodes
  intro graph ⟨wf, notRank⟩
  rcases edit_decompose_cases wf rank.id with ⟨error, refused⟩ | ⟨_, _, _, _, _, _, ran, decomposed⟩
  · rw [edit_decomposeNode_error refused]
    exact ⟨wf, notRank⟩
  · rw [edit_decomposeNode_ok ran]
    refine ⟨decomposed.wellFormed, ?_⟩
    intro node found kind
    obtain ⟨before, _⟩ := decomposed.node?_of_rank found kind
    exact notRank node before kind

/-- Once a rank has been decomposed, the graph is not what it was, even if a later decomposition fails. -/
theorem decomposeEach_changes {graph : Graph} (wf : graph.WellFormed) {rank : Node} {nodes : List Node}
    (found : graph.node? rank.id = some rank) (kind : rank.kind = .rank) (passes : Decomposable graph rank) :
    (graph.edit (decomposeEach (rank :: nodes))).2.nodes ≠ graph.nodes := by
  obtain ⟨outputType, passes⟩ := decomposable_iff.mp passes
  obtain ⟨chain, after, ran, decomposed⟩ := edit_decompose_ok wf found passes
  have gone : ∀ node, after.node? rank.id = some node → node.kind ≠ .rank := by
    intro node known still
    obtain ⟨_, other⟩ := decomposed.node?_of_rank known still
    exact other rfl
  obtain ⟨_, notRank⟩ := keeps_not_rank rank.id nodes after ⟨decomposed.wellFormed, gone⟩
  rw [decomposeEach, edit_mapM_cons_ok (edit_decomposeNode_ok ran)]
  intro same
  refine notRank rank ?_ kind
  rw [node?, decomposeEach, same]
  exact found

theorem check_eq_ok {graph : Graph} {node : Node} :
    replacement.check graph node = .ok () ↔ Decomposable graph node := by
  rw [decomposable_iff]
  simp only [replacement]
  cases outputType graph node <;> simp [discard, Functor.mapConst, Except.map]

/-- Either some check fails, and nothing is changed, or the ranks are decomposed in turn. -/
theorem edit_pass (graph : Graph) :
    ((∃ node ∈ graph.nodesOfKind .rank, ¬ Decomposable graph node) ∧
      ∃ error, graph.edit pass.run = (.error error, graph)) ∨
    ((∀ node ∈ graph.nodesOfKind .rank, Decomposable graph node) ∧
      (graph.edit pass.run).1.isOk = (graph.edit (decomposeEach (graph.nodesOfKind .rank))).1.isOk ∧
      (graph.edit pass.run).2 = (graph.edit (decomposeEach (graph.nodesOfKind .rank))).2) := by
  cases checks : (graph.nodesOfKind .rank).forM fun node => replacement.check graph node with
  | error error =>
    refine .inl ⟨?_, error, replacement.edit_replaceAll_error checks⟩
    by_contra all
    simp only [not_exists, not_and, not_not] at all
    rw [forM_eq_ok.mpr fun node member => check_eq_ok.mpr (all node member)] at checks
    cases checks
  | ok value =>
    have passed := forM_eq_ok.mp checks
    have ran : graph.edit pass.run = _ := replacement.edit_replaceAll_ok passed
    obtain ⟨same, graphs⟩ := edit_replaceEach graph (graph.nodesOfKind .rank)
    refine .inr ⟨fun node member => check_eq_ok.mp (passed node member), ?_, ?_⟩
    · rw [ran, isOk_map]
      exact same
    · rw [ran]
      exact graphs

/-- Where the pass succeeds, the ranks were decomposed in turn. -/
theorem pass_eq_ok {graph after : Graph} {stats : PassStats} (ran : graph.edit pass.run = (.ok stats, after)) :
    ∃ replaced, graph.edit (decomposeEach (graph.nodesOfKind .rank)) = (.ok replaced, after) := by
  rcases edit_pass graph with ⟨_, error, refused⟩ | ⟨_, same, graphs⟩
  · rw [refused] at ran
    cases ran
  · rw [ran] at same graphs
    cases outcome : graph.edit (decomposeEach (graph.nodesOfKind .rank)) with
    | mk result last =>
      rw [outcome] at same graphs
      cases result with
      | error error => cases same
      | ok replaced => exact ⟨replaced, congrArg (Prod.mk _) graphs.symm⟩

/-- The pass succeeds on the graphs whose ranks all pass the check and do not cut each other off. When it
fails, the graph is as it was exactly if some rank failed the check. -/
theorem pass_succeeds_iff {graph : Graph} (wf : graph.WellFormed) :
    ((graph.edit pass.run).1.isOk ↔
      (∀ node ∈ graph.nodesOfKind .rank, Decomposable graph node) ∧ ¬ Severed graph) ∧
    (¬ (graph.edit pass.run).1.isOk →
      ((graph.edit pass.run).2.nodes = graph.nodes ∧ (graph.edit pass.run).2.edges = graph.edges ↔
        ∃ node ∈ graph.nodesOfKind .rank, ¬ Decomposable graph node)) := by
  rcases edit_pass graph with ⟨⟨node, member, fails⟩, error, refused⟩ | ⟨all, same, graphs⟩
  · rw [refused]
    constructor
    · constructor
      · intro impossible
        cases impossible
      · intro ⟨all, _⟩
        exact absurd (all node member) fails
    · intro _
      exact iff_of_true ⟨rfl, rfl⟩ ⟨node, member, fails⟩
  · have stored : ∀ node ∈ graph.nodesOfKind .rank, graph.node? node.id = some node :=
      fun node member => (wf.mem_nodesOfKind.mp member).1
    have succeeds := decomposeEach_isOk_iff wf stored (wf.nodup_nodesOfKind .rank)
    rw [← not_severed_iff wf] at succeeds
    rw [same, graphs]
    refine ⟨succeeds, fun refused => ?_⟩
    have severed : Severed graph := by
      by_contra whole
      exact refused (succeeds.mpr ⟨all, whole⟩)
    obtain ⟨_, some, _⟩ := severed
    constructor
    · intro ⟨nodes, _⟩
      cases ranks : graph.nodesOfKind .rank with
      | nil => simp [ranks] at some
      | cons rank rest =>
        have member : rank ∈ graph.nodesOfKind .rank := by simp [ranks]
        obtain ⟨found, kind⟩ := wf.mem_nodesOfKind.mp member
        rw [ranks] at nodes
        exact absurd nodes (decomposeEach_changes wf found kind (all rank member))
    · intro ⟨node, member, fails⟩
      exact absurd (all node member) fails

end Passes

/-- Two ranks, of which the first feeds the second from a port other than the first one. -/
def crossed : Graph := Graph.empty.history
  [.addNode (.parameter "p" none), .addNode { id := "a", kind := .rank, outputType := some .i64 },
    .addNode { id := "b", kind := .rank, outputType := some .i64 },
    .connect ⟨"p", 0⟩ ⟨"a", 0⟩, .connect ⟨"a", 1⟩ ⟨"b", 0⟩]

theorem pass_fails_crossed : crossed.WellFormed ∧
    (∀ node ∈ crossed.nodesOfKind .rank, Decomposable crossed node) ∧ Severed crossed ∧
    ¬ (crossed.edit pass.run).1.isOk ∧
    ¬ ((crossed.edit pass.run).2.nodes = crossed.nodes ∧ (crossed.edit pass.run).2.edges = crossed.edges) := by
  have wf : crossed.WellFormed := wellFormed_empty.history _
  have all : ∀ node ∈ crossed.nodesOfKind .rank, Decomposable crossed node := by decide +kernel
  have severed : Severed crossed := by decide +kernel
  obtain ⟨succeeds, unchanged⟩ := pass_succeeds_iff wf
  have fails : ¬ (crossed.edit pass.run).1.isOk := fun ok => (succeeds.mp ok).2 severed
  refine ⟨wf, all, severed, fails, fun same => ?_⟩
  obtain ⟨node, member, broken⟩ := (unchanged fails).mp same
  exact broken (all node member)

end RankDecomposition
end OpGraph
