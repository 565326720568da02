import OpGraph.Proofs.Expansion

/-! What becomes of the consumers when all ranks are decomposed. An input that a rank feeds from its first
output is fed by the squeeze from then on; one that a rank feeds from any other port is left without a
producer, although the pass succeeds. All other inputs stay as they were. -/

namespace OpGraph.RankDecomposition
open OpGraph.Graph

def IsConsumer (graph : Graph) (port : Port) : Prop := ∃ node, graph.node? port.node = some node ∧ node.kind ≠ .rank

/-- How a consumer is connected once each rank has a squeeze in its place. -/
structure Reconnected (before after : Graph) (squeeze : NodeId → NodeId) (port : Port) : Prop where
  node? : after.node? port.node = before.node? port.node
  unfed : before.producer? port = none → after.producer? port = none
  kept : ∀ {source}, before.producer? port = some source → ¬ IsRank before source.node →
    after.producer? port = some source
  moved : ∀ {source}, before.producer? port = some source → IsRank before source.node → source.index = 0 →
    after.producer? port = some ⟨squeeze source.node, 0⟩
  cut : ∀ {source}, before.producer? port = some source → IsRank before source.node → source.index ≠ 0 →
    after.producer? port = none

variable {graph after : Graph} {chain : NodeId → Chain}

namespace Expanded

theorem node?_squeeze {ranks : List NodeId} (expanded : Expanded graph after ranks chain) {rank : Node}
    (found : graph.node? rank.id = some rank) (member : rank.id ∈ ranks) :
    after.node? (chain rank.id).squeeze =
      some { id := (chain rank.id).squeeze, kind := .squeeze, name := some rank.softName } := by
  have within : (Place.inserted rank.id .squeeze).Within graph ranks := member
  have stored := expanded.node? within
  obtain ⟨node, known⟩ := exists_node?_of_hasNode (expanded.hasNode within)
  rw [known, Place.node?, found] at stored
  cases declared : rank.outputType with
  | none => simp [declared] at stored
  | some outputType =>
    simp only [declared, Option.bind_eq_bind, Option.bind_some, Option.pure_def, Option.map_some] at stored
    exact known.trans stored

theorem reconnected (expanded : Expanded graph after ((graph.nodesOfKind .rank).map Node.id) chain)
    (wf : graph.WellFormed) {port : Port} (consumer : IsConsumer graph port) :
    Reconnected graph after (fun rank => (chain rank).squeeze) port := by
  obtain ⟨node, found, kind⟩ := consumer
  have other := not_mem_map_ranks wf found kind
  have within : (Place.kept port.node).Within graph ((graph.nodesOfKind .rank).map Node.id) :=
    ⟨hasNode_of_node? found, other⟩
  have feeds : after.producer? port = _ := expanded.producer? within port.index
  rw [Place.producer?] at feeds
  constructor
  · exact (expanded.node?_kept wf found other).trans found.symm
  · intro unfed
    rw [feeds, unfed]
    rfl
  · intro source fed notRank
    rw [feeds, fed, Option.bind_some, Place.ofOutput?, if_neg fun member => notRank ((mem_map_ranks wf).mp member)]
    rfl
  · intro source fed isRank first
    rw [feeds, fed, Option.bind_some, Place.ofOutput?, if_pos ((mem_map_ranks wf).mpr isRank), if_pos first]
    rfl
  · intro source fed isRank later
    rw [feeds, fed, Option.bind_some, Place.ofOutput?, if_pos ((mem_map_ranks wf).mpr isRank), if_neg later]
    rfl

end Expanded

theorem Reconnected.isSome_iff {squeeze : NodeId → NodeId} {port : Port}
    (reconnected : Reconnected graph after squeeze port) :
    (after.producer? port).isSome ↔
      ∃ source, graph.producer? port = some source ∧ (IsRank graph source.node → source.index = 0) := by
  cases fed : graph.producer? port with
  | none => simp [reconnected.unfed fed]
  | some source =>
    by_cases isRank : IsRank graph source.node
    · by_cases first : source.index = 0
      · simp [reconnected.moved fed isRank first, first]
      · simp [reconnected.cut fed isRank first, isRank, first]
    · simp [reconnected.kept fed isRank, isRank]

/-- Where the pass succeeds, each consumer is reconnected: no unconnected input becomes connected, and the
inputs that lose their producer are those that a rank feeds from another port than the first one. -/
theorem pass_reconnects_consumers [EdgeIdSupply] (wf : graph.WellFormed) {stats : PassStats}
    (ran : graph.edit pass.run = (.ok stats, after)) :
    ∃ squeeze : NodeId → NodeId,
      graph.edit (decomposeEach (graph.nodesOfKind .rank)) =
        (.ok ((graph.nodesOfKind .rank).map fun rank => (rank.id, squeeze rank.id)), after) ∧
      (∀ rank ∈ graph.nodesOfKind .rank, after.node? (squeeze rank.id) =
        some { id := squeeze rank.id, kind := .squeeze, name := some rank.softName }) ∧
      (∀ port, IsConsumer graph port → Reconnected graph after squeeze port) ∧
      ((∀ port, IsConsumer graph port → (graph.producer? port).isSome → (after.producer? port).isSome) ↔
        ∀ port source, IsConsumer graph port → graph.producer? port = some source → IsRank graph source.node →
          source.index = 0) := by
  obtain ⟨replaced, decomposed⟩ := pass_eq_ok ran
  have stored : ∀ node ∈ graph.nodesOfKind .rank, graph.node? node.id = some node := fun node member =>
    (wf.mem_nodesOfKind.mp member).1
  obtain ⟨chain, pairs, expanded⟩ := decomposeEach_expands wf stored (wf.nodup_nodesOfKind .rank) decomposed
  have reconnected (port : Port) (consumer : IsConsumer graph port) := expanded.reconnected wf consumer
  refine ⟨fun rank => (chain rank).squeeze, pairs ▸ decomposed, ?_, reconnected, ?_⟩
  · intro rank member
    exact expanded.node?_squeeze (stored rank member) (List.mem_map_of_mem member)
  · constructor
    · intro whole port source consumer fed isRank
      obtain ⟨other, found, first⟩ := (reconnected port consumer).isSome_iff.mp (whole port consumer (by rw [fed]; rfl))
      cases found.symm.trans fed
      exact first isRank
    · intro first port consumer connected
      obtain ⟨source, fed⟩ := Option.isSome_iff_exists.mp connected
      exact (reconnected port consumer).isSome_iff.mpr ⟨source, fed, first port source consumer fed⟩

/-- A rank that feeds one result from its first port and another one from its second port. -/
def forked : Graph := Graph.empty.history
  [.addNode (.parameter "x" none), .addNode { id := "r", kind := .rank, outputType := some .i64 },
    .addNode (.result "y"), .addNode (.result "z"), .connect ⟨"x", 0⟩ ⟨"r", 0⟩, .connect ⟨"r", 0⟩ ⟨"y", 0⟩,
    .connect ⟨"r", 1⟩ ⟨"z", 0⟩]

/-- The second result loses its producer, and the pass succeeds. -/
theorem pass_reconnects_consumers_forked : forked.WellFormed ∧ ∃ stats after squeeze,
    forked.edit pass.run = (.ok stats, after) ∧ after.producer? ⟨"y", 0⟩ = some ⟨squeeze, 0⟩ ∧
      forked.producer? ⟨"z", 0⟩ = some ⟨"r", 1⟩ ∧ after.producer? ⟨"z", 0⟩ = none := by
  have wf : forked.WellFormed := wellFormed_empty.history _
  have fed : forked.producer? ⟨"y", 0⟩ = some ⟨"r", 0⟩ ∧ forked.producer? ⟨"z", 0⟩ = some ⟨"r", 1⟩ := by decide +kernel
  have results : forked.node? "y" = some (.result "y") ∧ forked.node? "z" = some (.result "z") := by decide +kernel
  have rank : forked.node? "r" = some { id := "r", kind := .rank, outputType := some .i64 } := by decide +kernel
  have succeeds : (forked.edit pass.run).1.isOk := by decide +kernel
  obtain ⟨stats, ran⟩ := isOk_iff.mp succeeds
  obtain ⟨squeeze, _, _, reconnected, _⟩ := pass_reconnects_consumers wf (edit_eq_of_fst ran)
  have isRank : IsRank forked "r" := ⟨_, rank, rfl⟩
  refine ⟨wf, stats, _, squeeze "r", edit_eq_of_fst ran, ?_, fed.2, ?_⟩
  · exact (reconnected ⟨"y", 0⟩ ⟨_, results.1, nofun⟩).moved fed.1 isRank rfl
  · exact (reconnected ⟨"z", 0⟩ ⟨_, results.2, nofun⟩).cut fed.2 isRank (by decide)

end OpGraph.RankDecomposition
