import OpGraph.Graph.Comparison
import OpGraph.Proofs.Reachability

/-! The walk that compares two graphs. While it finds no difference, the two directions of the pairing
stay inverse to each other, and a pair that no longer waits agrees in everything but the ids. The walk
never gets far, since only the nodes that an edge leaves can be paired. -/

namespace OpGraph.Graph

/-! ## Nodes -/

structure NodesAgree (options : CompareOptions) (node expected : Node) : Prop where
  kind : node.kind = expected.kind
  value : node.kind = .const ∨ options.checkAttributes → optionEqBy Tensor.numEq node.value expected.value
  outputType : options.checkAttributes → node.outputType = expected.outputType
  shape : options.checkAttributes → node.shape = expected.shape
  attributes : options.checkAttributes → ∀ key ∉ options.ignored,
    optionEqBy OrderedJson.numEq node.attributes[key]? expected.attributes[key]?

theorem attributeDifferences_eq_nil {options : CompareOptions} {found expected : Attributes} :
    attributeDifferences options found expected = [] ↔
      ∀ key ∉ options.ignored, optionEqBy OrderedJson.numEq found[key]? expected[key]? := by
  have listed (key : String) : key ∈ found.keys ++ expected.keys.filter (fun key => !found.contains key) ↔
      found[key]? ≠ none ∨ expected[key]? ≠ none := by
    by_cases inside : key ∈ found
    · simp [inside]
    · have outside : found.contains key = false := by
        rw [← Bool.not_eq_true, Std.ExtTreeMap.contains_iff_mem]
        exact inside
      simp [inside, outside]
  simp only [attributeDifferences, List.filterMap_eq_nil_iff, List.mem_filter, listed]
  constructor
  · intro same key counts
    by_cases absent : found[key]? = none ∧ expected[key]? = none
    · simp [absent, optionEqBy]
    · have same := same key ⟨not_and_or.mp absent, by simpa using counts⟩
      by_contra different
      simp [different] at same
  · intro same key ⟨_, counts⟩
    simp [same key (by simpa using counts)]

theorem nodeDifferences_eq_nil {options : CompareOptions} {node expected : Node} :
    nodeDifferences options node expected = [] ↔ NodesAgree options node expected := by
  unfold nodeDifferences
  by_cases kind : node.kind = expected.kind
  · rw [if_neg (not_not.mpr kind)]
    by_cases checked : options.checkAttributes
    · have whole : NodesAgree options node expected ↔ optionEqBy Tensor.numEq node.value expected.value ∧
          node.outputType = expected.outputType ∧ node.shape = expected.shape ∧
          attributeDifferences options node.attributes expected.attributes = [] := by
        rw [attributeDifferences_eq_nil]
        constructor
        · intro agree
          exact ⟨agree.value (.inr checked), agree.outputType checked, agree.shape checked, agree.attributes checked⟩
        · intro ⟨value, outputType, shape, attributes⟩
          exact ⟨kind, fun _ => value, fun _ => outputType, fun _ => shape, fun _ => attributes⟩
      rw [whole]
      simp [checked]
    · have whole : NodesAgree options node expected ↔
          (node.kind = .const → optionEqBy Tensor.numEq node.value expected.value) := by
        constructor
        · exact fun agree const => agree.value (.inl const)
        · intro value
          exact ⟨kind, fun counts => value (counts.resolve_right checked), fun impossible => absurd impossible checked,
            fun impossible => absurd impossible checked, fun impossible => absurd impossible checked⟩
      rw [whole]
      simp [checked]
  · rw [if_pos kind]
    simp only [List.cons_ne_nil, false_iff]
    exact fun agree => kind agree.kind

namespace Pairing

/-! ## Differences only accumulate -/

theorem report_differences (pairing : Pairing) (differences : List Difference) :
    pairing.differences <+: (pairing.report differences).differences :=
  List.prefix_append _ _

theorem pair_differences (pairing : Pairing) (id counterpart : NodeId) :
    pairing.differences <+: (pairing.pair id counterpart).differences := by
  unfold pair report insert
  repeat' split
  all_goals simp

theorem meetInput_differences (graph reference : Graph) (id counterpart : NodeId) (pairing : Pairing) (index : UInt64) :
    pairing.differences <+: (pairing.meetInput graph reference id counterpart index).differences := by
  unfold meetInput
  split
  next found expected _ _ =>
    split
    · exact pairing.pair_differences _ _
    · exact (pairing.report_differences _).trans ((pairing.report _).pair_differences _ _)
  next => exact List.prefix_rfl

theorem foldl_meetInput_differences (graph reference : Graph) (id counterpart : NodeId) (indices : List UInt64)
    (pairing : Pairing) :
    pairing.differences <+: (indices.foldl (meetInput graph reference id counterpart) pairing).differences := by
  induction indices generalizing pairing with
  | nil => exact List.prefix_rfl
  | cons index indices ih => exact (meetInput_differences graph reference id counterpart pairing index).trans (ih _)

theorem meet_differences (graph reference : Graph) (options : CompareOptions) (pairing : Pairing)
    (id counterpart : NodeId) :
    pairing.differences <+: (pairing.meet graph reference options id counterpart).differences := by
  unfold meet
  split
  next node expected _ _ =>
    simp only
    split
    · exact (pairing.report_differences _).trans (foldl_meetInput_differences graph reference id counterpart _ _)
    · exact pairing.report_differences _
  next => exact List.prefix_rfl

theorem walk_differences (graph reference : Graph) (options : CompareOptions) (pairs : Nat) (pairing : Pairing) :
    pairing.differences <+: (pairing.walk graph reference options pairs).differences := by
  induction pairs generalizing pairing with
  | zero => exact List.prefix_rfl
  | succ pairs ih =>
    rw [walk]
    split
    next => exact List.prefix_rfl
    next id counterpart waiting _ =>
      exact (meet_differences graph reference options { pairing with waiting } id counterpart).trans (ih _)

/-! ## Pairs that agree -/

structure Paired (graph reference : Graph) (last : NodeId) (pairing : Pairing) : Prop where
  inverse : ∀ {id counterpart : NodeId},
    pairing.forward[id]? = some counterpart ↔ pairing.backward[counterpart]? = some id
  start : pairing.forward[last]? = some last
  cones : ∀ {id counterpart : NodeId}, pairing.forward[id]? = some counterpart →
    graph.Reaches id last ∧ reference.Reaches counterpart last
  waits : ∀ {id counterpart}, (id, counterpart) ∈ pairing.waiting → pairing.forward[id]? = some counterpart

/-- What was paired stays paired, and what is added waits. -/
structure Grows (before after : Pairing) : Prop where
  forward : ∀ {id counterpart : NodeId}, before.forward[id]? = some counterpart → after.forward[id]? = some counterpart
  waiting : before.waiting ⊆ after.waiting
  added : ∀ {id counterpart : NodeId}, after.forward[id]? = some counterpart →
    before.forward[id]? = some counterpart ∨ (id, counterpart) ∈ after.waiting

theorem Grows.refl (pairing : Pairing) : Grows pairing pairing := ⟨id, List.Subset.refl _, .inl⟩

theorem Grows.trans {before middle after : Pairing} (first : Grows before middle) (second : Grows middle after) :
    Grows before after := by
  refine ⟨fun known => second.forward (first.forward known), List.Subset.trans first.waiting second.waiting,
    fun known => ?_⟩
  rcases second.added known with earlier | waits
  · exact (first.added earlier).imp_right fun waits => second.waiting waits
  · exact .inr waits

section
variable {graph reference : Graph} {last : NodeId} {pairing : Pairing}

theorem Paired.report (paired : Paired graph reference last pairing) (differences : List Difference) :
    Paired graph reference last (pairing.report differences) :=
  ⟨paired.inverse, paired.start, paired.cones, paired.waits⟩

theorem forward_insert (pairing : Pairing) (id counterpart other : NodeId) :
    (pairing.insert id counterpart).forward[other]? =
      if id = other then some counterpart else pairing.forward[other]? := by
  simp only [insert, Std.ExtTreeMap.getElem?_insert, Std.compare_eq_iff_eq]

theorem backward_insert (pairing : Pairing) (id counterpart other : NodeId) :
    (pairing.insert id counterpart).backward[other]? =
      if counterpart = other then some id else pairing.backward[other]? := by
  simp only [insert, Std.ExtTreeMap.getElem?_insert, Std.compare_eq_iff_eq]

theorem Paired.insert (paired : Paired graph reference last pairing) {id counterpart : NodeId}
    (fresh : pairing.forward[id]? = none) (unmatched : pairing.backward[counterpart]? = none)
    (reaches : graph.Reaches id last) (expected : reference.Reaches counterpart last) :
    Paired graph reference last (pairing.insert id counterpart) := by
  constructor
  · intro other match'
    rw [forward_insert, backward_insert]
    have inverse := @paired.inverse other match'
    by_cases here : id = other <;> by_cases there : counterpart = match'
    · simp [here, there]
    · subst here
      simpa [there, fresh] using inverse
    · subst there
      simpa [here, unmatched] using inverse
    · simpa [here, there] using inverse
  · rw [forward_insert, if_neg, paired.start]
    intro same
    rw [same, paired.start] at fresh
    cases fresh
  · intro other match' known
    rw [forward_insert] at known
    split at known
    next same =>
      cases known
      exact ⟨same ▸ reaches, expected⟩
    next => exact paired.cones known
  · intro other match' member
    rw [forward_insert]
    rcases List.mem_append.mp member with waits | new
    · rw [if_neg, paired.waits waits]
      intro same
      rw [same, paired.waits waits] at fresh
      cases fresh
    · cases List.mem_singleton.mp new
      rw [if_pos rfl]

theorem grows_insert {id counterpart : NodeId} (fresh : pairing.forward[id]? = none) :
    Grows pairing (pairing.insert id counterpart) := by
  refine ⟨?_, List.subset_append_left _ _, ?_⟩
  · intro other match' known
    rw [forward_insert, if_neg, known]
    intro same
    rw [same, known] at fresh
    cases fresh
  · intro other match' known
    rw [forward_insert] at known
    split at known
    next same =>
      cases known
      subst same
      exact .inr (List.mem_append_right _ (List.mem_singleton_self _))
    next => exact .inl known

/-- Where pairing reports nothing, the two nodes are paired. -/
theorem Paired.pair (paired : Paired graph reference last pairing) {id counterpart : NodeId}
    (reaches : graph.Reaches id last) (expected : reference.Reaches counterpart last)
    (silent : (pairing.pair id counterpart).differences = []) :
    Paired graph reference last (pairing.pair id counterpart) ∧ Grows pairing (pairing.pair id counterpart) ∧
      (pairing.pair id counterpart).forward[id]? = some counterpart := by
  cases known : pairing.forward[id]? with
  | none =>
    cases matched : pairing.backward[counterpart]? with
    | none =>
      have inserted : pairing.pair id counterpart = pairing.insert id counterpart := by
        simp only [Pairing.pair, known, matched]
      rw [inserted]
      refine ⟨paired.insert known matched reaches expected, grows_insert known, ?_⟩
      rw [forward_insert, if_pos rfl]
    | some other =>
      by_cases same : other = id
      · subst same
        rw [paired.inverse.mpr matched] at known
        cases known
      · simp [Pairing.pair, known, matched, same, Pairing.report] at silent
  | some other =>
    by_cases same : other = counterpart
    · subst same
      have unchanged : pairing.pair id other = pairing := by
        simp [Pairing.pair, known, paired.inverse.mp known]
      rw [unchanged]
      exact ⟨paired, .refl pairing, known⟩
    · simp [Pairing.pair, known, same, Pairing.report] at silent

def Fed (graph reference : Graph) (pairing : Pairing) (id counterpart : NodeId) (index : UInt64) : Prop :=
  ∃ source expected, graph.producer? ⟨id, index⟩ = some source ∧
    reference.producer? ⟨counterpart, index⟩ = some expected ∧ source.index = expected.index ∧
    pairing.forward[source.node]? = some expected.node

theorem Fed.mono {after : Pairing} {id counterpart : NodeId} {index : UInt64}
    (fed : Fed graph reference pairing id counterpart index)
    (kept : ∀ {id counterpart : NodeId}, pairing.forward[id]? = some counterpart →
      after.forward[id]? = some counterpart) :
    Fed graph reference after id counterpart index := by
  obtain ⟨source, expected, found, known, ports, paired⟩ := fed
  exact ⟨source, expected, found, known, ports, kept paired⟩

theorem Paired.meetInput (paired : Paired graph reference last pairing) (wf : graph.WellFormed)
    (referenceWf : reference.WellFormed) {id counterpart : NodeId} (reaches : graph.Reaches id last)
    (expected : reference.Reaches counterpart last) {index : UInt64}
    (connected : (graph.producer? ⟨id, index⟩).isSome)
    (expectedConnected : (reference.producer? ⟨counterpart, index⟩).isSome)
    (silent : (pairing.meetInput graph reference id counterpart index).differences = []) :
    Paired graph reference last (pairing.meetInput graph reference id counterpart index) ∧
      Grows pairing (pairing.meetInput graph reference id counterpart index) ∧
      Fed graph reference (pairing.meetInput graph reference id counterpart index) id counterpart index := by
  obtain ⟨source, found⟩ := Option.isSome_iff_exists.mp connected
  obtain ⟨expectedSource, known⟩ := Option.isSome_iff_exists.mp expectedConnected
  simp only [Pairing.meetInput, found, known] at silent ⊢
  by_cases ports : source.index = expectedSource.index
  · rw [if_pos ports] at silent ⊢
    have sourceReaches : graph.Reaches source.node last := .head (wf.feeds_of_producer? found) reaches
    have expectedReaches : reference.Reaches expectedSource.node last :=
      .head (referenceWf.feeds_of_producer? known) expected
    obtain ⟨kept, grows, matched⟩ := paired.pair sourceReaches expectedReaches silent
    exact ⟨kept, grows, source, expectedSource, found, known, ports, matched⟩
  · rw [if_neg ports] at silent
    have reported := (pairing.report [.outputPort ⟨id, index⟩ source expectedSource]).pair_differences
      source.node expectedSource.node
    rw [silent, List.prefix_nil] at reported
    simp [Pairing.report] at reported

theorem Paired.meetInputs (wf : graph.WellFormed) (referenceWf : reference.WellFormed) {id counterpart : NodeId}
    (reaches : graph.Reaches id last) (expected : reference.Reaches counterpart last) {indices : List UInt64}
    (connected : ∀ index ∈ indices, (graph.producer? ⟨id, index⟩).isSome ∧
      (reference.producer? ⟨counterpart, index⟩).isSome)
    (paired : Paired graph reference last pairing)
    (silent : (indices.foldl (Pairing.meetInput graph reference id counterpart) pairing).differences = []) :
    Paired graph reference last (indices.foldl (Pairing.meetInput graph reference id counterpart) pairing) ∧
      Grows pairing (indices.foldl (Pairing.meetInput graph reference id counterpart) pairing) ∧
      ∀ index ∈ indices, Fed graph reference
        (indices.foldl (Pairing.meetInput graph reference id counterpart) pairing) id counterpart index := by
  induction indices generalizing pairing with
  | nil => exact ⟨paired, .refl pairing, by simp⟩
  | cons index indices ih =>
    rw [List.foldl_cons] at silent ⊢
    have first : (pairing.meetInput graph reference id counterpart index).differences = [] := by
      have later := foldl_meetInput_differences graph reference id counterpart indices
        (pairing.meetInput graph reference id counterpart index)
      rwa [silent, List.prefix_nil] at later
    obtain ⟨here, there⟩ := connected index (by simp)
    obtain ⟨kept, grows, fed⟩ := paired.meetInput wf referenceWf reaches expected here there first
    obtain ⟨kept, grown, feds⟩ := ih (fun other member => connected other (by simp [member])) kept silent
    refine ⟨kept, grows.trans grown, ?_⟩
    intro other member
    rcases List.mem_cons.mp member with same | later
    · subst same
      exact fed.mono grown.forward
    · exact feds other later

structure Matches (graph reference : Graph) (options : CompareOptions) (pairing : Pairing)
    (id counterpart : NodeId) : Prop where
  nodes : ∃ node expected, graph.node? id = some node ∧ reference.node? counterpart = some expected ∧
    NodesAgree options node expected
  consumers : (graph.outgoing[id]?.getD []).length = (reference.outgoing[counterpart]?.getD []).length
  inputs : graph.connectedInputs id = reference.connectedInputs counterpart
  producers : ∀ index ∈ graph.connectedInputs id, Fed graph reference pairing id counterpart index

theorem Matches.mono {options : CompareOptions} {after : Pairing} {id counterpart : NodeId}
    (agree : Matches graph reference options pairing id counterpart)
    (kept : ∀ {id counterpart : NodeId}, pairing.forward[id]? = some counterpart →
      after.forward[id]? = some counterpart) :
    Matches graph reference options after id counterpart :=
  ⟨agree.nodes, agree.consumers, agree.inputs, fun index member => (agree.producers index member).mono kept⟩

theorem aspects_eq_nil {options : CompareOptions} {node expected : Node} :
    aspects graph reference options node expected = [] ↔ NodesAgree options node expected ∧
      (graph.outgoing[node.id]?.getD []).length = (reference.outgoing[expected.id]?.getD []).length ∧
      graph.connectedInputs node.id = reference.connectedInputs expected.id := by
  simp [aspects, nodeDifferences_eq_nil]

theorem Paired.meet {options : CompareOptions} (wf : graph.WellFormed) (referenceWf : reference.WellFormed)
    {id counterpart : NodeId} (present : graph.hasNode id) (expectedPresent : reference.hasNode counterpart)
    (reaches : graph.Reaches id last) (expectedReaches : reference.Reaches counterpart last)
    (paired : Paired graph reference last pairing)
    (silent : (pairing.meet graph reference options id counterpart).differences = []) :
    Paired graph reference last (pairing.meet graph reference options id counterpart) ∧
      Grows pairing (pairing.meet graph reference options id counterpart) ∧
      Matches graph reference options (pairing.meet graph reference options id counterpart) id counterpart := by
  obtain ⟨node, found⟩ := exists_node?_of_hasNode present
  obtain ⟨expected, known⟩ := exists_node?_of_hasNode expectedPresent
  have own := wf.node_id found
  have expectedOwn := referenceWf.node_id known
  subst own expectedOwn
  simp only [Pairing.meet, found, known] at silent ⊢
  generalize reported : (aspects graph reference options node expected).map (Difference.nodes node.id expected.id) = new
    at silent ⊢
  have nothing : (pairing.report new).differences = [] := by
    split at silent
    next =>
      have later := foldl_meetInput_differences graph reference node.id expected.id (graph.connectedInputs node.id)
        (pairing.report new)
      rwa [silent, List.prefix_nil] at later
    next => exact silent
  obtain ⟨_, empty⟩ := List.append_eq_nil_iff.mp nothing
  rw [empty, List.map_eq_nil_iff, aspects_eq_nil] at reported
  obtain ⟨agree, consumers, inputs⟩ := reported
  rw [if_pos inputs] at silent ⊢
  have connected : ∀ index ∈ graph.connectedInputs node.id,
      (graph.producer? ⟨node.id, index⟩).isSome ∧ (reference.producer? ⟨expected.id, index⟩).isSome := by
    intro index member
    exact ⟨wf.isSome_producer?.mpr member, referenceWf.isSome_producer?.mpr (inputs ▸ member)⟩
  obtain ⟨kept, grows, fed⟩ := (paired.report new).meetInputs wf referenceWf reaches expectedReaches connected silent
  exact ⟨kept, ⟨grows.forward, grows.waiting, grows.added⟩,
    ⟨node, expected, found, known, agree⟩, consumers, inputs, fed⟩

def Settled (graph reference : Graph) (options : CompareOptions) (pairing : Pairing) : Prop :=
  ∀ {id counterpart : NodeId}, pairing.forward[id]? = some counterpart → (id, counterpart) ∉ pairing.waiting →
    Matches graph reference options pairing id counterpart

theorem Paired.hasNode (paired : Paired graph reference last pairing) (wf : graph.WellFormed)
    (referenceWf : reference.WellFormed) (present : graph.hasNode last) (expectedPresent : reference.hasNode last)
    {id counterpart : NodeId} (known : pairing.forward[id]? = some counterpart) :
    graph.hasNode id ∧ reference.hasNode counterpart := by
  obtain ⟨reaches, expected⟩ := paired.cones known
  exact ⟨wf.hasNode_of_reaches present reaches, referenceWf.hasNode_of_reaches expectedPresent expected⟩

/-- A walk that reports nothing settles one pair after another. -/
theorem Paired.walk {options : CompareOptions} (wf : graph.WellFormed) (referenceWf : reference.WellFormed)
    (present : graph.hasNode last) (expectedPresent : reference.hasNode last)
    (paired : Paired graph reference last pairing) (settled : Settled graph reference options pairing) {pairs : Nat}
    (silent : (pairing.walk graph reference options pairs).differences = []) :
    Paired graph reference last (pairing.walk graph reference options pairs) ∧
      Settled graph reference options (pairing.walk graph reference options pairs) := by
  induction pairs generalizing pairing with
  | zero => exact ⟨paired, settled⟩
  | succ pairs ih =>
    rw [Pairing.walk] at silent ⊢
    split
    next => exact ⟨paired, settled⟩
    next id counterpart waiting queued =>
      simp only [queued] at silent
      let rest : Pairing := { pairing with waiting }
      -- What is reported stays reported, so the first pair reports nothing either.
      have met : (rest.meet graph reference options id counterpart).differences = [] := by
        have later := walk_differences graph reference options pairs (rest.meet graph reference options id counterpart)
        rwa [silent, List.prefix_nil] at later
      have known := paired.waits (queued ▸ List.mem_cons_self)
      have restPaired : Paired graph reference last rest :=
        ⟨paired.inverse, paired.start, paired.cones,
          fun member => paired.waits (queued ▸ List.mem_cons_of_mem _ member)⟩
      obtain ⟨here, there⟩ := paired.hasNode wf referenceWf present expectedPresent known
      obtain ⟨reaches, expectedReaches⟩ := paired.cones known
      obtain ⟨kept, grows, agree⟩ := restPaired.meet wf referenceWf here there reaches expectedReaches met
      refine ih kept ?_ silent
      intro other match' later arrived
      rcases grows.added later with earlier | waits
      · by_cases same : (other, match') = (id, counterpart)
        · cases same
          exact agree
        · refine (settled earlier ?_).mono grows.forward
          rw [queued, List.mem_cons, not_or]
          exact ⟨same, fun waits => arrived (grows.waiting waits)⟩
      · exact absurd waits arrived

end

/-! ## Termination -/

/-- The nodes that the walk can pair: the one it starts from and those that an edge leaves. -/
def pairable (graph : Graph) (last : NodeId) : List NodeId :=
  last :: graph.edgeList.map fun edge => edge.source.node

theorem length_pairable (graph : Graph) (last : NodeId) : (pairable graph last).length = graph.edgeCount + 1 := by
  rw [pairable, List.length_cons, List.length_map, graph.length_edgeList]

theorem mem_pairable_of_producer? {graph : Graph} {last : NodeId} {port source : Port}
    (found : graph.producer? port = some source) : source.node ∈ pairable graph last := by
  obtain ⟨edge, known, same⟩ := Option.map_eq_some_iff.mp found
  subst same
  obtain ⟨id, _, stored⟩ := List.mem_filterMap.mp (List.mem_of_find?_eq_some known)
  exact List.mem_cons_of_mem _ (List.mem_map_of_mem (Graph.mem_edgeList.mpr ⟨id, stored⟩))

def Within (graph : Graph) (last : NodeId) (pairing : Pairing) : Prop :=
  ∀ id : NodeId, id ∈ pairing.forward → id ∈ pairable graph last

/-- The pairs that wait, and the nodes that can still be paired. -/
def room (graph : Graph) (pairing : Pairing) : Nat :=
  pairing.waiting.length + (graph.edgeCount + 1 - pairing.forward.size)

section
variable {graph reference : Graph} {last : NodeId} {pairing : Pairing}

theorem Within.size_le (within : Within graph last pairing) : pairing.forward.size ≤ graph.edgeCount + 1 := by
  have inside : pairing.forward.keys ⊆ pairable graph last := fun id member =>
    within id (Std.ExtTreeMap.mem_keys.mp member)
  have short := (List.subperm_of_subset Std.ExtTreeMap.nodup_keys inside).length_le
  rwa [Std.ExtTreeMap.length_keys, length_pairable] at short

theorem Within.pair (within : Within graph last pairing) {id : NodeId} (inside : id ∈ pairable graph last)
    (counterpart : NodeId) :
    Within graph last (pairing.pair id counterpart) ∧
      room graph (pairing.pair id counterpart) ≤ room graph pairing := by
  have same (differences : List Difference) : Within graph last (pairing.report differences) ∧
      room graph (pairing.report differences) ≤ room graph pairing := ⟨within, Nat.le_refl _⟩
  unfold Pairing.pair
  split
  next fresh _ =>
    have inserted : Within graph last (pairing.insert id counterpart) := by
      intro other member
      rcases Std.ExtTreeMap.mem_insert.mp member with here | earlier
      · rwa [← Std.compare_eq_iff_eq.mp here]
      · exact within other earlier
    have absent : id ∉ pairing.forward := by
      simpa using fresh
    have bound := inserted.size_le
    have size : (pairing.insert id counterpart).forward.size = pairing.forward.size + 1 := by
      simp only [Pairing.insert, Std.ExtTreeMap.size_insert, Std.ExtTreeMap.contains_iff_mem, absent, if_false]
    have length : (pairing.insert id counterpart).waiting.length = pairing.waiting.length + 1 := by
      rw [Pairing.insert, List.length_append, List.length_singleton]
    refine ⟨inserted, ?_⟩
    unfold room
    omega
  next =>
    split
    · exact same _
    · split
      · split
        · exact same _
        · exact ⟨within, Nat.le_refl _⟩
      · exact ⟨within, Nat.le_refl _⟩
  next =>
    split
    · exact same _
    · exact ⟨within, Nat.le_refl _⟩

theorem Within.meetInput (within : Within graph last pairing) (id counterpart : NodeId) (index : UInt64) :
    Within graph last (pairing.meetInput graph reference id counterpart index) ∧
      room graph (pairing.meetInput graph reference id counterpart index) ≤ room graph pairing := by
  unfold Pairing.meetInput
  split
  next source expected found _ =>
    have inside : source.node ∈ pairable graph last := mem_pairable_of_producer? found
    split
    · exact within.pair inside expected.node
    · have reported : Within graph last (pairing.report [.outputPort ⟨id, index⟩ source expected]) := within
      exact reported.pair inside expected.node
  next => exact ⟨within, Nat.le_refl _⟩

theorem Within.meetInputs (within : Within graph last pairing) (id counterpart : NodeId) (indices : List UInt64) :
    Within graph last (indices.foldl (Pairing.meetInput graph reference id counterpart) pairing) ∧
      room graph (indices.foldl (Pairing.meetInput graph reference id counterpart) pairing) ≤ room graph pairing := by
  induction indices generalizing pairing with
  | nil => exact ⟨within, Nat.le_refl _⟩
  | cons index indices ih =>
    obtain ⟨first, less⟩ := within.meetInput id counterpart index
    obtain ⟨rest, lesser⟩ := ih first
    exact ⟨rest, Nat.le_trans lesser less⟩

theorem Within.meet (within : Within graph last pairing) (options : CompareOptions) (id counterpart : NodeId) :
    Within graph last (pairing.meet graph reference options id counterpart) ∧
      room graph (pairing.meet graph reference options id counterpart) ≤ room graph pairing := by
  unfold Pairing.meet
  split
  next node expected _ _ =>
    have reported : Within graph last
        (pairing.report ((aspects graph reference options node expected).map (.nodes id counterpart))) := within
    simp only
    split
    · exact reported.meetInputs id counterpart (graph.connectedInputs id)
    · exact ⟨reported, Nat.le_refl _⟩
  next => exact ⟨within, Nat.le_refl _⟩

/-- Each pair that is met takes up some room. -/
theorem Within.walk (within : Within graph last pairing) (options : CompareOptions) {pairs : Nat}
    (enough : room graph pairing ≤ pairs) : (pairing.walk graph reference options pairs).waiting = [] := by
  induction pairs generalizing pairing with
  | zero =>
    rw [Pairing.walk, ← List.length_eq_zero_iff]
    unfold room at enough
    omega
  | succ pairs ih =>
    rw [Pairing.walk]
    split
    next done => exact done
    next id counterpart waiting queued =>
      let rest : Pairing := { pairing with waiting }
      have restWithin : Within graph last rest := within
      obtain ⟨met, less⟩ := @Within.meet graph reference last rest restWithin options id counterpart
      refine ih met ?_
      have length : pairing.waiting.length = waiting.length + 1 := by rw [queued, List.length_cons]
      unfold room at less enough ⊢
      simp only [rest] at less
      omega

end

theorem forward_start {last id counterpart : NodeId} :
    (start last).forward[id]? = some counterpart ↔ id = last ∧ counterpart = last := by
  simp only [start, Std.ExtTreeMap.ofList_singleton, Std.ExtTreeMap.getElem?_insert, Std.compare_eq_iff_eq]
  grind

theorem backward_start {last id counterpart : NodeId} :
    (start last).backward[counterpart]? = some id ↔ id = last ∧ counterpart = last := by
  rw [and_comm]
  exact forward_start

/-- The walk comes to an end on all graphs, well-formed or not. -/
theorem walk_terminates (graph reference : Graph) (last : NodeId) (options : CompareOptions) :
    ((start last).walk graph reference options (graph.edgeCount + 1)).waiting = [] := by
  have within : Within graph last (start last) := by
    intro id member
    simp only [start, Std.ExtTreeMap.ofList_singleton, Std.ExtTreeMap.mem_insert] at member
    rcases member with here | impossible
    · rw [← Std.compare_eq_iff_eq.mp here]
      exact List.mem_cons_self
    · simp at impossible
  refine within.walk options ?_
  simp only [room, start, Std.ExtTreeMap.ofList_singleton, Std.ExtTreeMap.size_insert]
  simp [Nat.add_comm]

end Pairing
end OpGraph.Graph
