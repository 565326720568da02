import OpGraph.Proofs.RankPass
import Mathlib.Data.Set.Function

/-! Decomposition of many ranks, whatever they feed. The outcome is described without the ids of the inserted
nodes: each node has a place, and what stands there and what feeds it follows from the graph before. The
order of the decompositions decides under which ids the places are found, and nothing else. -/

namespace OpGraph.RankDecomposition
open OpGraph.Graph

inductive Role where
  | shape
  | length
  | squeeze
  | axis
deriving DecidableEq

def Chain.id (chain : Chain) : Role → NodeId
  | .shape => chain.shape
  | .length => chain.length
  | .squeeze => chain.squeeze
  | .axis => chain.axis

def Role.node (role : Role) (id : NodeId) (name : String) (outputType : ElementType) : Node :=
  let chain : Chain := ⟨id, id, id, id⟩
  match role with
  | .shape => chain.shapeNode name outputType
  | .length => chain.lengthNode name outputType
  | .squeeze => chain.squeezeNode name
  | .axis => chain.axisNode name

def Role.feeder? : Role → UInt64 → Option Role
  | .length, index => if index = 0 then some .shape else none
  | .squeeze, index => if index = 0 then some .length else if index = 1 then some .axis else none
  | _, _ => none

theorem Role.id_node (role : Role) (id : NodeId) (name : String) (outputType : ElementType) :
    (role.node id name outputType).id = id := by
  cases role <;> rfl

theorem Role.withId_node (role : Role) (first second : NodeId) (name : String) (outputType : ElementType) :
    { role.node first name outputType with id := second } = role.node second name outputType := by
  cases role <;> rfl

namespace Chain

theorem id_mem_ids (chain : Chain) (role : Role) : chain.id role ∈ chain.ids := by
  cases role <;> simp [id, ids]

theorem exists_id_eq {chain : Chain} {id : NodeId} (member : id ∈ chain.ids) : ∃ role, chain.id role = id := by
  simp only [ids, List.mem_cons, List.not_mem_nil, or_false] at member
  rcases member with same | same | same | same
  · exact ⟨.axis, same.symm⟩
  · exact ⟨.squeeze, same.symm⟩
  · exact ⟨.length, same.symm⟩
  · exact ⟨.shape, same.symm⟩

theorem id_injective {chain : Chain} (distinct : chain.ids.Nodup) : Function.Injective chain.id := by
  obtain ⟨⟨axisSqueeze, axisLength, axisShape⟩, ⟨squeezeLength, squeezeShape⟩, lengthShape⟩ := nodup_ids.mp distinct
  intro first second same
  cases first <;> cases second <;> simp_all [id]

theorem node_mem_nodes (chain : Chain) (role : Role) (name : String) (outputType : ElementType) :
    role.node (chain.id role) name outputType ∈ chain.nodes name outputType := by
  cases role with
  | shape => exact .tail _ (.tail _ (.tail _ (.head _)))
  | length => exact .tail _ (.tail _ (.head _))
  | squeeze => exact .tail _ (.head _)
  | axis => exact .head _

end Chain

/-- Where a node is found once some ranks are decomposed: where it was, or in the place of a rank. -/
inductive Place where
  | kept (id : NodeId)
  | inserted (rank : NodeId) (role : Role)
deriving DecidableEq

namespace Place

def Within (graph : Graph) (ranks : List NodeId) : Place → Prop
  | kept id => graph.hasNode id ∧ id ∉ ranks
  | inserted rank _ => rank ∈ ranks

def id (chain : NodeId → Chain) : Place → NodeId
  | kept id => id
  | inserted rank role => (chain rank).id role

def node? (graph : Graph) : Place → Option Node
  | kept id => graph.node? id
  | inserted rank role => do
    let node ← graph.node? rank
    let outputType ← node.outputType
    return role.node rank node.softName outputType

/-- Where an output port is found; nowhere, if it is a port of a rank that its replacement does not have. -/
def ofOutput? (ranks : List NodeId) (source : Port) : Option (Place × UInt64) :=
  if source.node ∈ ranks then
    if source.index = 0 then some (inserted source.node .squeeze, 0) else none
  else some (kept source.node, source.index)

def producer? (graph : Graph) (ranks : List NodeId) : Place → UInt64 → Option (Place × UInt64)
  | kept id, index => (graph.producer? ⟨id, index⟩).bind (ofOutput? ranks)
  | inserted rank role, index =>
    if role = .shape ∧ index = 0 then (graph.producer? ⟨rank, 0⟩).bind (ofOutput? ranks)
    else (role.feeder? index).map fun feeder => (inserted rank feeder, 0)

def port (chain : NodeId → Chain) (output : Place × UInt64) : Port := ⟨output.1.id chain, output.2⟩

/-- Where a place is after the first decomposition: what was inserted is from then on a node like others. -/
def advance (rank : NodeId) (chain : Chain) : Place → Place
  | kept id => kept id
  | inserted other role => if other = rank then kept (chain.id role) else inserted other role

def advanceOutput (rank : NodeId) (chain : Chain) (output : Place × UInt64) : Place × UInt64 :=
  (output.1.advance rank chain, output.2)

variable {rank other : NodeId} {chain : Chain} {role : Role}

@[simp]
theorem advance_inserted : (inserted rank role).advance rank chain = kept (chain.id role) := if_pos rfl

theorem advance_inserted_of_ne (different : other ≠ rank) :
    (inserted other role).advance rank chain = inserted other role := if_neg different

theorem eq_of_advance_eq_inserted {place : Place} (same : place.advance rank chain = inserted other role) :
    place = inserted other role := by
  cases place with
  | kept id => cases same
  | inserted own role =>
    by_cases here : own = rank
    · subst here
      cases advance_inserted.symm.trans same
    · exact (advance_inserted_of_ne here).symm.trans same

theorem eq_of_advance_eq_kept {place : Place} {id : NodeId} (same : place.advance rank chain = kept id) :
    place = kept id ∨ ∃ role, place = inserted rank role ∧ chain.id role = id := by
  cases place with
  | kept other => exact .inl same
  | inserted own role =>
    by_cases here : own = rank
    · subst here
      exact .inr ⟨role, rfl, kept.inj (advance_inserted.symm.trans same)⟩
    · cases (advance_inserted_of_ne here).symm.trans same

end Place

structure Expanded (before after : Graph) (ranks : List NodeId) (chain : NodeId → Chain) : Prop where
  wellFormed : after.WellFormed
  bijective : Set.BijOn (Place.id chain) {place | place.Within before ranks} {id | after.hasNode id}
  node? : ∀ {place : Place}, place.Within before ranks →
    after.node? (place.id chain) = (place.node? before).map fun node => { node with id := place.id chain }
  producer? : ∀ {place : Place}, place.Within before ranks → ∀ index,
    after.producer? ⟨place.id chain, index⟩ = (place.producer? before ranks index).map (Place.port chain)

theorem Expanded.hasNode {before after : Graph} {ranks : List NodeId} {chain : NodeId → Chain}
    (expanded : Expanded before after ranks chain) {place : Place} (within : place.Within before ranks) :
    after.hasNode (place.id chain) := expanded.bijective.mapsTo within

theorem Expanded.node?_kept {before after : Graph} {ranks : List NodeId} {chain : NodeId → Chain}
    (expanded : Expanded before after ranks chain) (wf : before.WellFormed) {id : NodeId} {node : Node}
    (found : before.node? id = some node) (outside : id ∉ ranks) : after.node? id = some node := by
  have within : (Place.kept id).Within before ranks := ⟨hasNode_of_node? found, outside⟩
  have stays : after.node? id = _ := expanded.node? within
  rw [stays, Place.node?, found, ← wf.node_id found]
  rfl

theorem Expanded.refl {graph : Graph} (wf : graph.WellFormed) (chain : NodeId → Chain) :
    Expanded graph graph [] chain := by
  have kept {place : Place} (within : place.Within graph []) : ∃ id, place = .kept id ∧ graph.hasNode id := by
    cases place with
    | kept id => exact ⟨id, rfl, within.1⟩
    | inserted rank role => cases within
  refine ⟨wf, ⟨?_, ?_, ?_⟩, ?_, ?_⟩
  · intro place within
    obtain ⟨id, rfl, present⟩ := kept within
    exact present
  · intro place within other alsoWithin same
    obtain ⟨id, rfl, _⟩ := kept within
    obtain ⟨otherId, rfl, _⟩ := kept alsoWithin
    exact congrArg Place.kept same
  · intro id present
    exact ⟨.kept id, ⟨present, List.not_mem_nil⟩, rfl⟩
  · intro place within
    obtain ⟨id, rfl, present⟩ := kept within
    obtain ⟨node, found, own⟩ := wf.exists_node present
    subst own
    simp only [Place.id, Place.node?, found, Option.map_some]
  · intro place within index
    obtain ⟨id, rfl, _⟩ := kept within
    simp only [Place.id, Place.producer?]
    cases graph.producer? ⟨id, index⟩ with
    | none => rfl
    | some source => rfl

/-! ## One more rank -/

namespace Decomposed

variable {before middle : Graph} {rank : Node} {outputType : ElementType} {first : Chain} {ranks : List NodeId}

theorem not_mem_of_inserted {name : String} (decomposed : Decomposed before middle rank.id name outputType first)
    (present : ∀ id ∈ ranks, before.hasNode id) (role : Role) : first.id role ∉ ranks :=
  fun member => decomposed.fresh _ (first.id_mem_ids role) (present _ member)

theorem bijOn_advance {name : String} (decomposed : Decomposed before middle rank.id name outputType first)
    (absent : rank.id ∉ ranks) (present : ∀ id ∈ ranks, before.hasNode id) :
    Set.BijOn (Place.advance rank.id first) {place | place.Within before (rank.id :: ranks)}
      {place | place.Within middle ranks} := by
  have apart := decomposed.not_mem_of_inserted present
  have fresh (role : Role) : ¬ before.hasNode (first.id role) := decomposed.fresh _ (first.id_mem_ids role)
  refine ⟨?_, ?_, ?_⟩
  · intro place within
    cases place with
    | kept id =>
      obtain ⟨known, other⟩ := within
      rw [List.mem_cons, not_or] at other
      exact ⟨(decomposed.hasNode_iff id).mpr (.inl ⟨known, other.1⟩), other.2⟩
    | inserted other role =>
      rcases List.mem_cons.mp within with here | later
      · subst here
        rw [Place.advance_inserted]
        exact ⟨(decomposed.hasNode_iff _).mpr (.inr (first.id_mem_ids role)), apart role⟩
      · have different : other ≠ rank.id := fun same => absent (same ▸ later)
        rw [Place.advance_inserted_of_ne different]
        exact later
  · intro place within other alsoWithin same
    cases there : other.advance rank.id first with
    | inserted otherRank role =>
      exact (Place.eq_of_advance_eq_inserted (same.trans there)).trans (Place.eq_of_advance_eq_inserted there).symm
    | kept id =>
      -- a node that was there before does not have the id of an inserted one
      rcases Place.eq_of_advance_eq_kept (same.trans there) with rfl | ⟨role, rfl, taken⟩
      · rcases Place.eq_of_advance_eq_kept there with rfl | ⟨role, rfl, taken⟩
        · rfl
        · exact absurd within.1 (taken ▸ fresh role)
      · rcases Place.eq_of_advance_eq_kept there with rfl | ⟨otherRole, rfl, alsoTaken⟩
        · exact absurd alsoWithin.1 (taken ▸ fresh role)
        · rw [Chain.id_injective decomposed.distinct (taken.trans alsoTaken.symm)]
  · intro place within
    cases place with
    | kept id =>
      obtain ⟨known, other⟩ := within
      rcases (decomposed.hasNode_iff id).mp known with ⟨known, different⟩ | inserted
      · exact ⟨.kept id, ⟨known, by simp [different, other]⟩, rfl⟩
      · obtain ⟨role, rfl⟩ := Chain.exists_id_eq inserted
        exact ⟨.inserted rank.id role, List.mem_cons_self, Place.advance_inserted⟩
    | inserted other role =>
      have different : other ≠ rank.id := fun same => absent (same ▸ within)
      exact ⟨.inserted other role, List.mem_cons_of_mem _ within, Place.advance_inserted_of_ne different⟩

theorem ofOutput?_relocate {name : String} (decomposed : Decomposed before middle rank.id name outputType first)
    (present : ∀ id ∈ ranks, before.hasNode id) (source : Port) :
    (relocate rank.id first.squeeze source).bind (Place.ofOutput? ranks) =
      (Place.ofOutput? (rank.id :: ranks) source).map (Place.advanceOutput rank.id first) := by
  have apart : first.squeeze ∉ ranks := decomposed.not_mem_of_inserted present .squeeze
  obtain ⟨node, index⟩ := source
  by_cases here : node = rank.id
  · by_cases zero : index = 0
    · simp [relocate, Place.ofOutput?, Place.advanceOutput, Place.advance, Chain.id, here, zero, apart]
    · simp [relocate, Place.ofOutput?, here, zero]
  · by_cases later : node ∈ ranks
    · by_cases zero : index = 0
      · simp [relocate, Place.ofOutput?, Place.advanceOutput, Place.advance, here, zero, later]
      · simp [relocate, Place.ofOutput?, here, zero, later]
    · simp [relocate, Place.ofOutput?, Place.advanceOutput, Place.advance, here, later]

theorem bind_ofOutput? {name : String} (decomposed : Decomposed before middle rank.id name outputType first)
    (present : ∀ id ∈ ranks, before.hasNode id) (found : Option Port) :
    (found.bind (relocate rank.id first.squeeze)).bind (Place.ofOutput? ranks) =
      (found.bind (Place.ofOutput? (rank.id :: ranks))).map (Place.advanceOutput rank.id first) := by
  cases found with
  | none => rfl
  | some source => exact decomposed.ofOutput?_relocate present source

/-- What feeds an inserted node, but for the input that takes over that of the rank. -/
theorem producer?_inner {name : String} (decomposed : Decomposed before middle rank.id name outputType first)
    {role : Role} {index : UInt64} (inner : ¬ (role = .shape ∧ index = 0)) :
    middle.producer? ⟨first.id role, index⟩ = (role.feeder? index).map fun feeder => ⟨first.id feeder, 0⟩ := by
  obtain ⟨⟨axisSqueeze, axisLength, axisShape⟩, ⟨squeezeLength, squeezeShape⟩, lengthShape⟩ :=
    Chain.nodup_ids.mp decomposed.distinct
  have unfed (outside : (⟨first.id role, index⟩ : Port) ∉ first.inputs) :
      middle.producer? ⟨first.id role, index⟩ = none :=
    decomposed.producer?_other (first.id_mem_ids role) outside
  simp only [Chain.inputs, List.mem_cons, Port.mk.injEq, List.not_mem_nil, or_false] at unfed
  cases role with
  | shape =>
    have other : index ≠ 0 := fun zero => inner ⟨rfl, zero⟩
    exact unfed (by simp [Chain.id, other, squeezeShape.symm])
  | length =>
    by_cases zero : index = 0
    · rw [zero]
      exact decomposed.producer?_length
    · rw [Role.feeder?, if_neg zero]
      exact unfed (by simp [Chain.id, zero, squeezeLength.symm])
  | squeeze =>
    by_cases zero : index = 0
    · rw [zero]
      exact decomposed.producer?_squeeze
    · by_cases one : index = 1
      · rw [one]
        exact decomposed.producer?_axis
      · rw [Role.feeder?, if_neg zero, if_neg one]
        exact unfed (by simp [Chain.id, zero, one])
  | axis => exact unfed (by simp [Chain.id, axisShape, axisLength, axisSqueeze])

/-- What feeds a place is the same before and after the first decomposition. -/
theorem producer?_advance {name : String} (decomposed : Decomposed before middle rank.id name outputType first)
    (present : ∀ id ∈ ranks, before.hasNode id) {place : Place}
    (within : place.Within before (rank.id :: ranks)) (index : UInt64) :
    (place.advance rank.id first).producer? middle ranks index =
      (place.producer? before (rank.id :: ranks) index).map (Place.advanceOutput rank.id first) := by
  have apart := decomposed.not_mem_of_inserted present
  have moved := decomposed.bind_ofOutput? present
  cases place with
  | kept id =>
    obtain ⟨known, other⟩ := within
    have different : id ≠ rank.id := fun same => other (same ▸ List.mem_cons_self)
    have fed := @decomposed.producer?_kept ⟨id, index⟩ known different
    simp only [Place.advance, Place.producer?, fed, moved]
  | inserted other role =>
    by_cases here : other = rank.id
    · rw [here, Place.advance_inserted, Place.producer?, Place.producer?]
      by_cases entrance : role = .shape ∧ index = 0
      · rw [if_pos entrance, entrance.1, entrance.2, ← moved]
        exact congrArg (Option.bind · _) decomposed.producer?_shape
      · rw [if_neg entrance, decomposed.producer?_inner entrance]
        cases role.feeder? index with
        | none => rfl
        | some feeder => simp [Place.ofOutput?, Place.advanceOutput, Place.advance, apart feeder]
    · have later := (List.mem_cons.mp within).resolve_left here
      have fed := @decomposed.producer?_kept ⟨other, 0⟩ (present other later) here
      rw [Place.advance_inserted_of_ne here, Place.producer?, Place.producer?]
      by_cases entrance : role = .shape ∧ index = 0
      · rw [if_pos entrance, if_pos entrance, fed, moved]
      · rw [if_neg entrance, if_neg entrance]
        cases role.feeder? index with
        | none => rfl
        | some feeder => simp [Place.advanceOutput, Place.advance, here]

/-- What stands at a place is the same before and after the first decomposition. -/
theorem node?_advance (decomposed : Decomposed before middle rank.id rank.softName outputType first)
    (found : before.node? rank.id = some rank) (declared : rank.outputType = some outputType)
    (present : ∀ id ∈ ranks, before.hasNode id) {place : Place} (within : place.Within before (rank.id :: ranks))
    (id : NodeId) :
    ((place.advance rank.id first).node? middle).map (fun node => { node with id }) =
      (place.node? before).map fun node => { node with id } := by
  cases place with
  | kept other =>
    obtain ⟨known, different⟩ := within
    rw [List.mem_cons, not_or] at different
    rw [Place.advance, Place.node?, Place.node?, decomposed.node?_kept known different.1]
  | inserted other role =>
    by_cases here : other = rank.id
    · have stored := decomposed.node?_chain _ (first.node_mem_nodes role rank.softName outputType)
      rw [Role.id_node] at stored
      rw [here, Place.advance_inserted, Place.node?, Place.node?, stored, found]
      simp [declared, Role.withId_node]
    · have later := (List.mem_cons.mp within).resolve_left here
      rw [Place.advance_inserted_of_ne here, Place.node?, Place.node?, decomposed.node?_kept (present other later) here]

end Decomposed

theorem Expanded.cons {before middle after : Graph} {rank : Node} {outputType : ElementType} {first : Chain}
    {ranks : List NodeId} {chain : NodeId → Chain} (rest : Expanded middle after ranks chain)
    (decomposed : Decomposed before middle rank.id rank.softName outputType first)
    (found : before.node? rank.id = some rank) (declared : rank.outputType = some outputType)
    (absent : rank.id ∉ ranks) (present : ∀ id ∈ ranks, before.hasNode id) :
    Expanded before after (rank.id :: ranks) (Function.update chain rank.id first) := by
  have ids (place : Place) : (place.advance rank.id first).id chain =
      place.id (Function.update chain rank.id first) := by
    cases place with
    | kept id => rfl
    | inserted other role =>
      by_cases here : other = rank.id
      · rw [here, Place.advance_inserted, Place.id, Place.id, Function.update_self]
      · rw [Place.advance_inserted_of_ne here, Place.id, Place.id, Function.update_of_ne here]
  have advances := decomposed.bijOn_advance absent present
  refine ⟨rest.wellFormed, ?_, ?_, ?_⟩
  · exact (rest.bijective.comp advances).congr fun place _ => ids place
  · intro place within
    rw [← ids, rest.node? (advances.mapsTo within)]
    exact decomposed.node?_advance found declared present within _
  · intro place within index
    rw [← ids, rest.producer? (advances.mapsTo within), decomposed.producer?_advance present within, Option.map_map]
    congr 1
    funext output
    simp [Place.port, Place.advanceOutput, ids]

/-! ## All ranks -/

def IsRank (graph : Graph) (id : NodeId) : Prop := ∃ node, graph.node? id = some node ∧ node.kind = .rank

theorem mem_map_ranks {graph : Graph} (wf : graph.WellFormed) {id : NodeId} :
    id ∈ (graph.nodesOfKind .rank).map Node.id ↔ IsRank graph id := by
  rw [List.mem_map]
  constructor
  · intro listed
    obtain ⟨node, member, same⟩ := listed
    obtain ⟨found, kind⟩ := wf.mem_nodesOfKind.mp member
    exact ⟨node, same ▸ found, kind⟩
  · intro isRank
    obtain ⟨node, found, kind⟩ := isRank
    have own := wf.node_id found
    exact ⟨node, wf.mem_nodesOfKind.mpr ⟨own.symm ▸ found, kind⟩, own⟩

theorem not_mem_map_ranks {graph : Graph} (wf : graph.WellFormed) {id : NodeId} {node : Node}
    (found : graph.node? id = some node) (kind : node.kind ≠ .rank) : id ∉ (graph.nodesOfKind .rank).map Node.id := by
  intro member
  obtain ⟨rank, known, isRank⟩ := (mem_map_ranks wf).mp member
  cases known.symm.trans found
  exact kind isRank

theorem decomposeEach_expands [EdgeIdSupply] {graph : Graph} (wf : graph.WellFormed) {nodes : List Node}
    (stored : ∀ node ∈ nodes, graph.node? node.id = some node) (distinct : (nodes.map Node.id).Nodup)
    {replaced : List (NodeId × NodeId)} {after : Graph}
    (ran : graph.edit (decomposeEach nodes) = (.ok replaced, after)) :
    ∃ chain : NodeId → Chain, replaced = nodes.map (fun node => (node.id, (chain node.id).squeeze)) ∧
      Expanded graph after (nodes.map Node.id) chain := by
  induction nodes generalizing graph replaced with
  | nil =>
    cases ran
    exact ⟨fun id => ⟨id, id, id, id⟩, rfl, .refl wf _⟩
  | cons rank nodes ih =>
    have found := stored rank (by simp)
    rw [decomposeEach, List.mapM_cons, edit_bind_eq_ok] at ran
    obtain ⟨pair, middle, first, ran⟩ := ran
    obtain ⟨rest, last, others, done⟩ := edit_bind_eq_ok.mp ran
    cases done
    obtain ⟨outputType, passes, chain, same, decomposed⟩ := edit_decomposeNode_eq_ok wf found first
    subst same
    have remaining := decomposed.stored_rest stored distinct
    obtain ⟨absent, distinct⟩ := List.nodup_cons.mp distinct
    obtain ⟨later, pairs, expanded⟩ :=
      ih decomposed.wellFormed (fun node member => (remaining node member).2.2) distinct others
    have present : ∀ id ∈ nodes.map Node.id, graph.hasNode id := by
      intro id member
      obtain ⟨node, inside, same⟩ := List.mem_map.mp member
      exact same ▸ (remaining node inside).1
    refine ⟨Function.update later rank.id chain, ?_,
      expanded.cons decomposed found (outputType_eq_ok.mp passes).1 absent present⟩
    rw [List.map_cons, Function.update_self, pairs]
    congr 1
    apply List.map_congr_left
    intro node member
    rw [Function.update_of_ne (remaining node member).2.1]

end OpGraph.RankDecomposition
