import OpGraph.Proofs.Expansion
import OpGraph.Proofs.Rewriting

/-! What the pass reports of its edges against how many there are. An edge is known by the input that it feeds, so
the edges of the outcome are counted at its places: each edge that is not lost feeds the place of its target,
and three more feed the inside of a chain. The report knows of the chains alone. -/

namespace OpGraph.RankDecomposition
open OpGraph.Graph

/-- An edge that leaves or enters a rank through a port which its replacement does not have. -/
def Stray (ranks : List NodeId) (edge : Edge) : Prop :=
  (edge.source.node ∈ ranks ∧ edge.source.index ≠ 0) ∨ (edge.target.node ∈ ranks ∧ edge.target.index ≠ 0)

instance (ranks : List NodeId) : DecidablePred (Stray ranks) := fun edge =>
  inferInstanceAs (Decidable ((edge.source.node ∈ ranks ∧ edge.source.index ≠ 0) ∨
    (edge.target.node ∈ ranks ∧ edge.target.index ≠ 0)))

def strays (graph : Graph) : List Edge :=
  graph.edgeList.filter fun edge => Stray ((graph.nodesOfKind .rank).map Node.id) edge

theorem not_stray_iff {ranks : List NodeId} {edge : Edge} : ¬ Stray ranks edge ↔
    (edge.source.node ∈ ranks → edge.source.index = 0) ∧ (edge.target.node ∈ ranks → edge.target.index = 0) := by
  simp [Stray, not_or]

namespace Place

variable {graph : Graph} {ranks : List NodeId}

/-- Where an input port is found: the start of the chain takes over those of a rank. -/
def ofInput (ranks : List NodeId) (target : Port) : Place × UInt64 :=
  if target.node ∈ ranks then (inserted target.node .shape, target.index) else (kept target.node, target.index)

def innerInputs (rank : NodeId) : List (Place × UInt64) :=
  [(inserted rank .length, 0), (inserted rank .squeeze, 0), (inserted rank .squeeze, 1)]

def fedInputs (graph : Graph) (ranks : List NodeId) : List (Place × UInt64) :=
  (graph.edgeList.filter fun edge => !Stray ranks edge).map (fun edge => ofInput ranks edge.target) ++
    ranks.flatMap innerInputs

theorem ofInput_injective (ranks : List NodeId) : Function.Injective (ofInput ranks) := by
  intro first second same
  unfold ofInput at same
  split at same <;> split at same <;> simp_all [Port.ext_iff]

theorem ofInput_eq_kept {target : Port} {id : NodeId} {index : UInt64} (outside : id ∉ ranks) :
    ofInput ranks target = (kept id, index) ↔ target = ⟨id, index⟩ := by
  have there : ofInput ranks ⟨id, index⟩ = (kept id, index) := if_neg outside
  rw [← there, (ofInput_injective ranks).eq_iff]

theorem ofInput_eq_inserted {target : Port} {rank : NodeId} {role : Role} {index : UInt64} (inside : rank ∈ ranks) :
    ofInput ranks target = (inserted rank role, index) ↔ role = .shape ∧ target = ⟨rank, index⟩ := by
  have there : ofInput ranks ⟨rank, index⟩ = (inserted rank .shape, index) := if_pos inside
  rw [← (ofInput_injective ranks).eq_iff, there]
  unfold ofInput
  split <;> simp [eq_comm, and_assoc, and_left_comm]

theorem isSome_bind_ofOutput? {found : Option Port} : (found.bind (ofOutput? ranks)).isSome ↔
    ∃ source, found = some source ∧ (source.node ∈ ranks → source.index = 0) := by
  cases found with
  | none => simp
  | some source =>
    by_cases inside : source.node ∈ ranks
    · by_cases first : source.index = 0 <;> simp [ofOutput?, inside, first]
    · simp [ofOutput?, inside]

/-- An input that is fed by an edge which was there before. -/
theorem mem_carried (wf : graph.WellFormed) {input : Place × UInt64} :
    input ∈ (graph.edgeList.filter fun edge => !Stray ranks edge).map (fun edge => ofInput ranks edge.target) ↔
      ∃ source target, graph.producer? target = some source ∧ (source.node ∈ ranks → source.index = 0) ∧
        (target.node ∈ ranks → target.index = 0) ∧ ofInput ranks target = input := by
  simp only [List.mem_map, List.mem_filter, wf.mem_edgeList, Bool.not_eq_true', decide_eq_false_iff_not, not_stray_iff,
    wf.producer?_eq_some_iff, wf.joins_iff]
  constructor
  · rintro ⟨edge, ⟨stored, left, right⟩, same⟩
    exact ⟨_, _, ⟨edge, stored, rfl, rfl⟩, left, right, same⟩
  · rintro ⟨_, _, ⟨edge, stored, rfl, rfl⟩, left, right, same⟩
    exact ⟨edge, ⟨stored, left, right⟩, same⟩

theorem mem_innerInputs {place : Place} {index : UInt64} : (place, index) ∈ ranks.flatMap innerInputs ↔
    ∃ rank role, place = inserted rank role ∧ rank ∈ ranks ∧ (role.feeder? index).isSome := by
  simp only [List.mem_flatMap, innerInputs, List.mem_cons, List.not_mem_nil, or_false, Prod.mk.injEq]
  constructor
  · rintro ⟨rank, inside, ⟨rfl, rfl⟩ | ⟨rfl, rfl⟩ | ⟨rfl, rfl⟩⟩
    · exact ⟨rank, .length, rfl, inside, rfl⟩
    · exact ⟨rank, .squeeze, rfl, inside, rfl⟩
    · exact ⟨rank, .squeeze, rfl, inside, rfl⟩
  · rintro ⟨rank, role, rfl, inside, fed⟩
    refine ⟨rank, inside, ?_⟩
    cases role with
    | shape => cases fed
    | length =>
      by_cases zero : index = 0
      · exact .inl ⟨rfl, zero⟩
      · simp [Role.feeder?, zero] at fed
    | squeeze =>
      by_cases zero : index = 0
      · exact .inr (.inl ⟨rfl, zero⟩)
      · by_cases one : index = 1
        · exact .inr (.inr ⟨rfl, one⟩)
        · simp [Role.feeder?, zero, one] at fed
    | axis => cases fed

theorem isSome_producer?_iff (wf : graph.WellFormed) {place : Place} (within : place.Within graph ranks)
    (index : UInt64) : (place.producer? graph ranks index).isSome ↔ (place, index) ∈ fedInputs graph ranks := by
  rw [fedInputs, List.mem_append, mem_carried wf, mem_innerInputs]
  cases place with
  | kept id =>
    have outside := within.2
    simp only [Place.producer?, isSome_bind_ofOutput?, ofInput_eq_kept outside, reduceCtorEq, false_and,
      exists_false, or_false]
    constructor
    · rintro ⟨source, fed, left⟩
      exact ⟨source, ⟨id, index⟩, fed, left, fun inside => absurd inside outside, rfl⟩
    · rintro ⟨source, _, fed, left, _, rfl⟩
      exact ⟨source, fed, left⟩
  | inserted rank role =>
    have inside : rank ∈ ranks := within
    simp only [Place.producer?, ofInput_eq_inserted inside]
    by_cases entrance : role = .shape ∧ index = 0
    · obtain ⟨rfl, rfl⟩ := entrance
      simp only [and_self, if_true, isSome_bind_ofOutput?, true_and]
      constructor
      · rintro ⟨source, fed, left⟩
        exact .inl ⟨source, ⟨rank, 0⟩, fed, left, fun _ => rfl, rfl⟩
      · rintro (⟨source, _, fed, left, _, rfl⟩ | ⟨_, _, same, _, impossible⟩)
        · exact ⟨source, fed, left⟩
        · cases same
          cases impossible
    · rw [if_neg entrance, Option.isSome_map]
      constructor
      · intro fed
        exact .inr ⟨rank, role, rfl, inside, fed⟩
      · rintro (⟨_, _, _, _, first, shape, rfl⟩ | ⟨_, _, same, _, fed⟩)
        · exact absurd ⟨shape, first inside⟩ entrance
        · cases same
          exact fed

theorem within_of_mem_fedInputs (wf : graph.WellFormed) {place : Place} {index : UInt64}
    (member : (place, index) ∈ fedInputs graph ranks) : place.Within graph ranks := by
  rcases List.mem_append.mp member with carried | inner
  · obtain ⟨source, target, fed, _, _, same⟩ := (mem_carried wf).mp carried
    unfold ofInput at same
    split at same
    next inside =>
      cases same
      exact inside
    next outside =>
      cases same
      exact ⟨(wf.hasNode_of_producer? fed).2, outside⟩
  · obtain ⟨rank, role, rfl, inside, _⟩ := mem_innerInputs.mp inner
    exact inside

theorem nodup_fedInputs (wf : graph.WellFormed) (distinct : ranks.Nodup) : (fedInputs graph ranks).Nodup := by
  refine List.Nodup.append ?carried ?inner ?apart
  case carried =>
    have targets : ((graph.edgeList.filter fun edge => !Stray ranks edge).map Edge.target).Nodup :=
      wf.nodup_targets.sublist (List.filter_sublist.map Edge.target)
    have whole := targets.map (ofInput_injective ranks)
    rwa [List.map_map] at whole
  case inner =>
    rw [List.nodup_flatMap]
    refine ⟨fun rank _ => by simp [innerInputs], distinct.imp ?_⟩
    intro first second different input member otherMember
    simp only [innerInputs, List.mem_cons, List.not_mem_nil, or_false] at member otherMember
    rcases member with rfl | rfl | rfl <;> simp [different] at otherMember
  case apart =>
    intro input carried inner
    obtain ⟨place, index⟩ := input
    obtain ⟨rank, role, rfl, inside, fed⟩ := mem_innerInputs.mp inner
    obtain ⟨_, _, _, _, _, same⟩ := (mem_carried wf).mp carried
    obtain ⟨rfl, _⟩ := (ofInput_eq_inserted inside).mp same
    cases fed

theorem length_fedInputs :
    (fedInputs graph ranks).length + (graph.edgeList.filter fun edge => Stray ranks edge).length =
    graph.edgeCount + 3 * ranks.length := by
  have inner : (ranks.flatMap innerInputs).length = 3 * ranks.length := by
    simp [List.length_flatMap, innerInputs, Nat.mul_comm]
  have parts := List.length_eq_length_filter_add (l := graph.edgeList) fun edge => Stray ranks edge
  rw [fedInputs, List.length_append, List.length_map, inner, ← length_edgeList]
  omega

end Place

/-- Three edges more for each rank, less those that are lost. -/
theorem Expanded.edgeCount {before after : Graph} {ranks : List NodeId} {chain : NodeId → Chain}
    (expanded : Expanded before after ranks chain) (wf : before.WellFormed) (distinct : ranks.Nodup) :
    after.edgeCount + (before.edgeList.filter fun edge => Stray ranks edge).length =
      before.edgeCount + 3 * ranks.length := by
  have within {input : Place × UInt64} (member : input ∈ Place.fedInputs before ranks) : input.1.Within before ranks :=
    Place.within_of_mem_fedInputs wf member
  have apart : ((Place.fedInputs before ranks).map (Place.port chain)).Nodup := by
    refine List.Nodup.map_on ?_ (Place.nodup_fedInputs wf distinct)
    intro first member second otherMember same
    obtain ⟨ids, indexes⟩ := Port.mk.inj same
    exact Prod.ext (expanded.bijective.injOn (within member) (within otherMember) ids) indexes
  have fed : ∀ port, (after.producer? port).isSome ↔ port ∈ (Place.fedInputs before ranks).map (Place.port chain) := by
    intro port
    rw [List.mem_map]
    constructor
    · intro connected
      obtain ⟨source, known⟩ := Option.isSome_iff_exists.mp connected
      obtain ⟨place, inside, here⟩ := expanded.bijective.surjOn (expanded.wellFormed.hasNode_of_producer? known).2
      have same : (⟨place.id chain, port.index⟩ : Port) = port := Port.ext here rfl
      rw [← same, expanded.producer? inside, Option.isSome_map] at connected
      exact ⟨(place, port.index), (Place.isSome_producer?_iff wf inside _).mp connected, same⟩
    · rintro ⟨⟨place, index⟩, member, rfl⟩
      have inside : place.Within before ranks := within member
      rw [Place.port, expanded.producer? inside, Option.isSome_map]
      exact (Place.isSome_producer?_iff wf inside index).mpr member
  rw [expanded.wellFormed.edgeCount_eq_length apart fed, List.length_map, Place.length_fedInputs]

/-- Where the pass succeeds, its report tells the matches and the nodes that came and went. The edges it tells of
are those of the chains: the graph has fewer by the strays, so the report is right exactly if there are none. -/
theorem pass_balances [EdgeIdSupply] {graph after : Graph} (wf : graph.WellFormed) {stats : PassStats}
    (ran : graph.edit pass.run = (.ok stats, after)) :
    stats.matched = (graph.nodesOfKind .rank).length ∧
      (after.nodeCount : Int) = graph.nodeCount + stats.nodesAdded - stats.nodesRemoved ∧
      (after.edgeCount : Int) = graph.edgeCount + stats.edgesAdded - stats.edgesRemoved - (strays graph).length ∧
      ((after.edgeCount : Int) = graph.edgeCount + stats.edgesAdded - stats.edgesRemoved ↔ strays graph = []) := by
  obtain ⟨replaced, decomposed⟩ := pass_eq_ok ran
  have stored : ∀ node ∈ graph.nodesOfKind .rank, graph.node? node.id = some node := fun node member =>
    (wf.mem_nodesOfKind.mp member).1
  have distinct := wf.nodup_nodesOfKind .rank
  obtain ⟨chain, _, expanded⟩ := decomposeEach_expands wf stored distinct decomposed
  have nodes := (decomposeEach_rewrites wf stored distinct decomposed).nodeCount
  have edges := expanded.edgeCount wf distinct
  obtain ⟨matched, added, removed⟩ := pass_stats ran
  have gain := pass_edgeGain ran
  rw [List.length_map] at nodes edges
  have lost : (graph.edgeList.filter fun edge => Stray ((graph.nodesOfKind .rank).map Node.id) edge).length =
      (strays graph).length := rfl
  rw [lost] at edges
  rw [PassStats.edgeGain] at gain
  refine ⟨matched, by omega, by omega, ?_⟩
  rw [← List.length_eq_zero_iff]
  omega

/-- A rank with a second input, and with a second output that is consumed. -/
def tangled : Graph := Graph.empty.history
  [.addNode (.parameter "p" none), .addNode { id := "r", kind := .rank, outputType := some .i64 },
    .addNode (.result "y"), .addNode (.result "z"), .connect ⟨"p", 0⟩ ⟨"r", 0⟩, .connect ⟨"p", 0⟩ ⟨"r", 1⟩,
    .connect ⟨"r", 0⟩ ⟨"y", 0⟩, .connect ⟨"r", 1⟩ ⟨"z", 0⟩]

/-- Two of its edges are lost, of which the report of the pass does not tell. -/
theorem pass_balances_tangled : tangled.WellFormed ∧ ∃ stats after, tangled.edit pass.run = (.ok stats, after) ∧
    (after.nodeCount : Int) = tangled.nodeCount + stats.nodesAdded - stats.nodesRemoved ∧
      (after.edgeCount : Int) = tangled.edgeCount + stats.edgesAdded - stats.edgesRemoved - 2 := by
  have wf : tangled.WellFormed := wellFormed_empty.history _
  have lost : (strays tangled).length = 2 := by decide +kernel
  have succeeds : (tangled.edit pass.run).1.isOk := by decide +kernel
  obtain ⟨stats, ran⟩ := isOk_iff.mp succeeds
  obtain ⟨_, nodes, edges, _⟩ := pass_balances wf (edit_eq_of_fst ran)
  rw [lost] at edges
  exact ⟨wf, stats, _, edit_eq_of_fst ran, nodes, edges⟩

end OpGraph.RankDecomposition
