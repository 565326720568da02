import OpGraph.Proofs.Expansion

/-! The order of decompositions shows in the ids of the inserted nodes alone. Where a place is found in one
outcome tells where it is found in another one; this renaming is an isomorphism, since what stands at a
place and what feeds it is the same in both. -/

namespace OpGraph

namespace Graph

structure Isomorphism (first second : Graph) (rename : NodeId → NodeId) : Prop where
  bijective : Set.BijOn rename {id | first.hasNode id} {id | second.hasNode id}
  node? : ∀ {id : NodeId}, first.hasNode id →
    second.node? (rename id) = (first.node? id).map fun node => { node with id := rename id }
  joins_iff : ∀ {source target : Port}, first.hasNode source.node → first.hasNode target.node →
    (second.Joins ⟨rename source.node, source.index⟩ ⟨rename target.node, target.index⟩ ↔ first.Joins source target)

end Graph

namespace RankDecomposition
open OpGraph.Graph

variable {before first second : Graph} {ranks others : List NodeId} {chain otherChain : NodeId → Chain}

/-! ## The ranks as a set -/

theorem Place.within_congr (same : ∀ id, id ∈ ranks ↔ id ∈ others) (place : Place) :
    place.Within before ranks ↔ place.Within before others := by
  cases place with
  | kept id => exact and_congr_right fun _ => not_congr (same id)
  | inserted rank role => exact same rank

theorem Place.producer?_congr (same : ∀ id, id ∈ ranks ↔ id ∈ others) (place : Place) (index : UInt64) :
    place.producer? before ranks index = place.producer? before others index := by
  have outputs : Place.ofOutput? ranks = Place.ofOutput? others := by
    funext source
    simp only [Place.ofOutput?, same]
  cases place <;> simp only [Place.producer?, outputs]

theorem Expanded.congr (expanded : Expanded before first ranks chain) (same : ∀ id, id ∈ ranks ↔ id ∈ others) :
    Expanded before first others chain := by
  have within (place : Place) : place.Within before ranks ↔ place.Within before others := place.within_congr same
  refine ⟨expanded.wellFormed, ?_, ?_, ?_⟩
  · simpa only [within] using expanded.bijective
  · intro place inside
    exact expanded.node? ((within place).mpr inside)
  · intro place inside index
    rw [← place.producer?_congr same]
    exact expanded.producer? ((within place).mpr inside) index

/-! ## From one outcome to another -/

theorem Place.within_of_ofOutput? {source : Port} (present : before.hasNode source.node) {output : Place × UInt64}
    (found : Place.ofOutput? ranks source = some output) : output.1.Within before ranks := by
  unfold Place.ofOutput? at found
  split at found
  next inside =>
    split at found
    · cases found
      exact inside
    · cases found
  next outside =>
    cases found
    exact ⟨present, outside⟩

/-- What feeds a place is at a place itself. -/
theorem Place.within_of_producer? (wf : before.WellFormed) {place : Place} (within : place.Within before ranks)
    {index : UInt64} {output : Place × UInt64} (fed : place.producer? before ranks index = some output) :
    output.1.Within before ranks := by
  have moved {target : Port} (found : (before.producer? target).bind (Place.ofOutput? ranks) = some output) :
      output.1.Within before ranks := by
    obtain ⟨source, known, found⟩ := Option.bind_eq_some_iff.mp found
    exact Place.within_of_ofOutput? (wf.hasNode_of_producer? known).1 found
  cases place with
  | kept id => exact moved fed
  | inserted rank role =>
    rw [Place.producer?] at fed
    split at fed
    · exact moved fed
    · obtain ⟨feeder, _, same⟩ := Option.map_eq_some_iff.mp fed
      subst same
      exact within

/-- A renaming that takes each place of one outcome to the same place of the other one is an isomorphism. -/
theorem Expanded.isomorphism (one : Expanded before first ranks chain) (other : Expanded before second ranks otherChain)
    (wf : before.WellFormed) {rename : NodeId → NodeId}
    (bijective : Set.BijOn rename {id | first.hasNode id} {id | second.hasNode id})
    (places : ∀ place : Place, place.Within before ranks → rename (place.id chain) = place.id otherChain) :
    Isomorphism first second rename := by
  have place {id : NodeId} (present : first.hasNode id) :
      ∃ place : Place, place.Within before ranks ∧ place.id chain = id :=
    one.bijective.surjOn present
  have fed {id : NodeId} (present : first.hasNode id) (index : UInt64) : second.producer? ⟨rename id, index⟩ =
      (first.producer? ⟨id, index⟩).map fun source => ⟨rename source.node, source.index⟩ := by
    obtain ⟨place, within, rfl⟩ := place present
    rw [places place within, one.producer? within, other.producer? within, Option.map_map]
    apply Option.map_congr
    intro output found
    simp only [Function.comp_apply, Place.port, places output.1 (Place.within_of_producer? wf within found)]
  refine ⟨bijective, ?_, ?_⟩
  · intro id present
    obtain ⟨place, within, rfl⟩ := place present
    rw [places place within, one.node? within, other.node? within, Option.map_map]
    rfl
  · intro source target sourcePresent targetPresent
    rw [← other.wellFormed.producer?_eq_some_iff, ← one.wellFormed.producer?_eq_some_iff, fed targetPresent,
      Option.map_eq_some_iff]
    constructor
    · intro moved
      obtain ⟨producer, found, same⟩ := moved
      have producerPresent := (one.wellFormed.hasNode_of_producer? found).1
      obtain ⟨node, index⟩ := Port.mk.inj same
      rwa [Port.ext (bijective.injOn producerPresent sourcePresent node) index] at found
    · intro found
      exact ⟨source, found, rfl⟩

theorem Expanded.exists_isomorphism (one : Expanded before first ranks chain)
    (other : Expanded before second ranks otherChain) (wf : before.WellFormed) :
    ∃ rename, Isomorphism first second rename ∧ ∀ id, before.hasNode id → id ∉ ranks → rename id = id := by
  have nonempty : Nonempty Place := ⟨.kept ""⟩
  have inverse := one.bijective.invOn_invFunOn
  let rename := Place.id otherChain ∘ Function.invFunOn (Place.id chain) {place | place.Within before ranks}
  have places (place : Place) (within : place.Within before ranks) : rename (place.id chain) = place.id otherChain :=
    congrArg (Place.id otherChain) (inverse.1 within)
  have bijective := other.bijective.comp (Set.BijOn.symm inverse.symm one.bijective)
  exact ⟨rename, one.isomorphism other wf bijective places,
    fun id present outside => places (.kept id) ⟨present, outside⟩⟩

/-! ## Any order of the ranks -/

theorem replaceEach_expands [EdgeIdSupply] {graph : Graph} (wf : graph.WellFormed)
    (decomposable : ∀ node ∈ graph.nodesOfKind .rank, Decomposable graph node)
    (firstPort : ∀ edge ∈ graph.edgeList, IsRank graph edge.source.node → edge.source.index = 0)
    {order : List Node} (ordered : order.Perm (graph.nodesOfKind .rank)) :
    ∃ stats after chain, graph.edit (order.mapM fun rank => replace rank.id) = (.ok stats, after) ∧
      Expanded graph after ((graph.nodesOfKind .rank).map Node.id) chain := by
  have stored : ∀ node ∈ order, graph.node? node.id = some node := fun node member =>
    (wf.mem_nodesOfKind.mp (ordered.mem_iff.mp member)).1
  have distinct : (order.map Node.id).Nodup := (ordered.map Node.id).nodup_iff.mpr (wf.nodup_nodesOfKind .rank)
  have whole : order.Pairwise fun first second => ¬ cuts graph first second := by
    apply List.pairwise_of_forall_mem_list
    intro cutting member second _ cut
    obtain ⟨source, found, severed⟩ := (Option.any_eq_true _ _).mp cut
    rw [Bool.and_eq_true, beq_iff_eq, bne_iff_ne] at severed
    obtain ⟨node, other⟩ := severed
    obtain ⟨id, edge, known, same, _⟩ := wf.producer?_eq_some_iff.mp found
    subst same
    have isRank : IsRank graph edge.source.node :=
      (mem_map_ranks wf).mp (node ▸ List.mem_map_of_mem (ordered.mem_iff.mp member))
    exact other (firstPort edge (Graph.mem_edgeList.mpr ⟨id, known⟩) isRank)
  have passes := fun node member => decomposable node (ordered.mem_iff.mp member)
  obtain ⟨replaced, ran⟩ := isOk_iff.mp ((decomposeEach_isOk_iff wf stored distinct).mpr ⟨passes, whole⟩)
  obtain ⟨chain, _, expanded⟩ := decomposeEach_expands wf stored distinct (edit_eq_of_fst ran)
  obtain ⟨succeeds, graphs⟩ := edit_replaceEach graph order
  obtain ⟨stats, replaces⟩ := isOk_iff.mp (succeeds.trans (isOk_iff.mpr ⟨replaced, ran⟩))
  exact ⟨stats, _, chain, Prod.ext replaces graphs, expanded.congr fun id => (ordered.map Node.id).mem_iff⟩

/-- In whatever order the ranks are decomposed, all decompositions succeed, and the outcomes are isomorphic;
the isomorphism moves none of the nodes that were no ranks. -/
theorem replacement_order_irrelevant [EdgeIdSupply] {graph : Graph} (wf : graph.WellFormed)
    (decomposable : ∀ node ∈ graph.nodesOfKind .rank, Decomposable graph node)
    (firstPort : ∀ edge ∈ graph.edgeList, IsRank graph edge.source.node → edge.source.index = 0)
    {order otherOrder : List Node} (ordered : order.Perm (graph.nodesOfKind .rank))
    (otherOrdered : otherOrder.Perm (graph.nodesOfKind .rank)) :
    ∃ stats otherStats first second rename,
      graph.edit (order.mapM fun rank => replace rank.id) = (.ok stats, first) ∧
      graph.edit (otherOrder.mapM fun rank => replace rank.id) = (.ok otherStats, second) ∧
      Isomorphism first second rename ∧
      ∀ id node, graph.node? id = some node → node.kind ≠ .rank →
        first.node? id = some node ∧ second.node? id = some node ∧ rename id = id := by
  obtain ⟨stats, first, chain, ran, one⟩ := replaceEach_expands wf decomposable firstPort ordered
  obtain ⟨otherStats, second, otherChain, otherRan, other⟩ := replaceEach_expands wf decomposable firstPort otherOrdered
  obtain ⟨rename, isomorphism, fixed⟩ := one.exists_isomorphism other wf
  refine ⟨stats, otherStats, first, second, rename, ran, otherRan, isomorphism, ?_⟩
  intro id node found kind
  have present := hasNode_of_node? found
  have outside := not_mem_map_ranks wf found kind
  exact ⟨one.node?_kept wf found outside, other.node?_kept wf found outside, fixed id present outside⟩

/-- Two ranks in a circle, with one name, and a third one that feeds itself. -/
def circled : Graph := Graph.empty.history
  [.addNode { id := "a", kind := .rank, name := some "r", outputType := some .i32 },
    .addNode { id := "b", kind := .rank, name := some "r", outputType := some .i64 },
    .addNode { id := "c", kind := .rank, outputType := some .i64 }, .addNode (.result "z"),
    .connect ⟨"a", 0⟩ ⟨"b", 0⟩, .connect ⟨"b", 0⟩ ⟨"a", 0⟩, .connect ⟨"c", 0⟩ ⟨"c", 0⟩, .connect ⟨"b", 0⟩ ⟨"z", 0⟩]

theorem replacement_order_irrelevant_circled : circled.WellFormed ∧
    ∃ order, order.Perm (circled.nodesOfKind .rank) ∧ order ≠ circled.nodesOfKind .rank ∧
      ∃ stats otherStats first second rename,
        circled.edit (order.mapM fun rank => replace rank.id) = (.ok stats, first) ∧
        circled.edit ((circled.nodesOfKind .rank).mapM fun rank => replace rank.id) = (.ok otherStats, second) ∧
        Isomorphism first second rename ∧ rename "z" = "z" := by
  have wf : circled.WellFormed := wellFormed_empty.history _
  have decomposable : ∀ node ∈ circled.nodesOfKind .rank, Decomposable circled node := by decide +kernel
  have firstPort : ∀ edge ∈ circled.edgeList, edge.source.index = 0 := by decide +kernel
  have result : circled.node? "z" = some (.result "z") := by decide +kernel
  have several : (circled.nodesOfKind .rank).reverse ≠ circled.nodesOfKind .rank := by decide +kernel
  have ordered := List.reverse_perm (circled.nodesOfKind .rank)
  obtain ⟨stats, otherStats, first, second, rename, ran, otherRan, isomorphism, fixed⟩ :=
    replacement_order_irrelevant wf decomposable (fun edge member _ => firstPort edge member) ordered (.refl _)
  obtain ⟨_, _, same⟩ := fixed "z" _ result nofun
  exact ⟨wf, _, ordered, several, stats, otherStats, first, second, rename, ran, otherRan, isomorphism, same⟩

end RankDecomposition
end OpGraph
