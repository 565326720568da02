import OpGraph.Graph.Edit
import OpGraph.Proofs.Edits
import OpGraph.Proofs.Queries
import OpGraph.Proofs.UnusedIds

/-! What edits do to the nodes and to the producers of the input ports. Of a well-formed graph nothing
else matters to evaluation, comparison and the passes, so each edit is described by these two functions
and its adjacency lists and edge ids are forgotten. -/

namespace OpGraph.Graph

/-- Two well-formed graphs, the second with the nodes of the first and the given producers. -/
structure Rewired (before after : Graph) (producer : Port → Option Port) : Prop where
  wellFormed : after.WellFormed
  node? : ∀ id, after.node? id = before.node? id
  producer? : ∀ port, after.producer? port = producer port

theorem isSome_inEdge? (graph : Graph) (port : Port) :
    (graph.inEdge? port).isSome = (graph.producer? port).isSome := by
  simp [producer?]

theorem Rewired.hasNode {before after : Graph} {producer : Port → Option Port}
    (rewired : Rewired before after producer) (id : NodeId) : after.hasNode id = before.hasNode id := by
  rw [hasNode_eq_isSome, hasNode_eq_isSome, rewired.node?]

namespace WellFormed

variable {graph : Graph}

theorem producer?_eq (wf : graph.WellFormed) {port : Port} {expected : Option Port}
    (same : ∀ source, graph.Joins source port ↔ expected = some source) : graph.producer? port = expected :=
  Option.ext fun source => wf.producer?_eq_some_iff.trans (same source)

theorem producer?_eq_none_iff (wf : graph.WellFormed) {port : Port} :
    graph.producer? port = none ↔ ∀ source, ¬ graph.Joins source port := by
  simp only [Option.eq_none_iff_forall_ne_some, ne_eq, wf.producer?_eq_some_iff]

theorem hasNode_of_producer? (wf : graph.WellFormed) {source target : Port}
    (found : graph.producer? target = some source) : graph.hasNode source.node ∧ graph.hasNode target.node := by
  obtain ⟨id, edge, stored, rfl, rfl⟩ := wf.producer?_eq_some_iff.mp found
  exact wf.ends stored

theorem producer?_eq_none (wf : graph.WellFormed) {port : Port} (absent : ¬ graph.hasNode port.node) :
    graph.producer? port = none := by
  cases found : graph.producer? port with
  | none => rfl
  | some source => exact absurd (wf.hasNode_of_producer? found).2 absent

theorem producer?_of_edge? (wf : graph.WellFormed) {id : EdgeId} {edge : Edge}
    (stored : graph.edge? id = some edge) : graph.producer? edge.target = some edge.source :=
  wf.producer?_eq_some_iff.mpr ⟨id, edge, stored, rfl, rfl⟩

/-- Edges are counted by the input ports that they feed. -/
theorem edgeCount_eq_length (wf : graph.WellFormed) {ports : List Port} (distinct : ports.Nodup)
    (fed : ∀ port, (graph.producer? port).isSome ↔ port ∈ ports) : graph.edgeCount = ports.length := by
  have members : ∀ port, port ∈ graph.edgeList.map Edge.target ↔ port ∈ ports := by
    intro port
    rw [← fed, Option.isSome_iff_exists, List.mem_map]
    simp only [wf.mem_edgeList, wf.producer?_eq_some_iff, wf.joins_iff]
    constructor
    · rintro ⟨edge, stored, target⟩
      exact ⟨edge.source, edge, stored, rfl, target⟩
    · rintro ⟨source, edge, stored, _, target⟩
      exact ⟨edge, stored, target⟩
  have perm := (List.perm_ext_iff_of_nodup wf.nodup_targets distinct).mpr members
  rw [← length_edgeList, ← List.length_map Edge.target, perm.length_eq]

/-! ## Updates -/

theorem producer?_withNode (wf : graph.WellFormed) {node : Node} (unused : ¬ graph.hasNode node.id)
    (port : Port) : (graph.withNode node).producer? port = graph.producer? port :=
  (wf.withNode unused).producer?_eq fun _ => wf.producer?_eq_some_iff.symm

theorem producer?_modifyNode (wf : graph.WellFormed) (id : NodeId) (change : Node → Node) (port : Port) :
    (graph.modifyNode id change).producer? port = graph.producer? port :=
  (wf.modifyNode id change).producer?_eq fun _ => wf.producer?_eq_some_iff.symm

theorem producer?_withoutEdge (wf : graph.WellFormed) {edge : Edge} (stored : graph.edge? edge.id = some edge)
    (port : Port) :
    (graph.withoutEdge edge).producer? port = if port = edge.target then none else graph.producer? port := by
  apply (wf.withoutEdge stored).producer?_eq
  intro source
  simp only [Joins, edge?_withoutEdge]
  split
  next same =>
    constructor
    · rintro ⟨id, other, found, _, target⟩
      split at found
      · cases found
      next different => exact absurd (wf.target_unique stored found (same.symm.trans target.symm)) different
    · intro impossible
      cases impossible
  next elsewhere =>
    rw [wf.producer?_eq_some_iff]
    constructor
    · rintro ⟨id, other, found, source, target⟩
      split at found
      · cases found
      · exact ⟨id, other, found, source, target⟩
    · rintro ⟨id, other, found, source, target⟩
      refine ⟨id, other, ?_, source, target⟩
      rw [if_neg, found]
      rintro rfl
      rw [stored] at found
      cases found
      exact elsewhere target.symm

theorem producer?_withoutNode (wf : graph.WellFormed) (id : NodeId) (port : Port) :
    (graph.withoutNode id).producer? port =
      if port.node = id then none else (graph.producer? port).filter fun source => source.node != id := by
  apply (wf.withoutNode id).producer?_eq
  intro source
  simp only [Joins, wf.edge?_withoutNode, Option.filter_eq_some_iff, Bool.and_eq_true, bne_iff_ne]
  split
  next same =>
    constructor
    · rintro ⟨_, edge, ⟨_, _, elsewhere⟩, _, rfl⟩
      exact absurd same elsewhere
    · intro impossible
      cases impossible
  next elsewhere =>
    rw [Option.filter_eq_some_iff, wf.producer?_eq_some_iff, bne_iff_ne]
    constructor
    · rintro ⟨edgeId, edge, ⟨stored, source, _⟩, rfl, rfl⟩
      exact ⟨⟨edgeId, edge, stored, rfl, rfl⟩, source⟩
    · rintro ⟨⟨edgeId, edge, stored, rfl, rfl⟩, source⟩
      exact ⟨edgeId, edge, ⟨stored, source, elsewhere⟩, rfl, rfl⟩

end WellFormed

/-! ## Joining two ports -/

variable [EdgeIdSupply]

def join (graph : Graph) (source target : Port) : Graph :=
  graph.withEdge ⟨graph.unusedEdgeId, source, target⟩

theorem edit_connect_eq (graph : Graph) (source target : Port) :
    graph.edit (connect source target) =
      if !graph.hasNode source.node || !graph.hasNode target.node then
        (.error (.danglingEdge source.node target.node), graph)
      else if (graph.producer? target).isSome then (.error (.inputPortOccupied target.node target.index), graph)
      else (.ok graph.unusedEdgeId, graph.join source target) := by
  have unused : graph.edges.contains graph.unusedEdgeId = false := by
    rw [Std.ExtTreeMap.contains_eq_isSome_getElem?]
    exact congrArg Option.isSome (edge?_unusedEdgeId graph)
  rw [edit_connect, edit_addEdge, unused, isSome_inEdge?]
  rfl

theorem edit_connect_ok {graph : Graph} {source target : Port} (sourceNode : graph.hasNode source.node)
    (targetNode : graph.hasNode target.node) (free : graph.producer? target = none) :
    graph.edit (connect source target) = (.ok graph.unusedEdgeId, graph.join source target) := by
  rw [edit_connect_eq, sourceNode, targetNode, free]
  rfl

namespace WellFormed

variable {graph : Graph}

theorem join (wf : graph.WellFormed) {source target : Port} (sourceNode : graph.hasNode source.node)
    (targetNode : graph.hasNode target.node) (free : graph.producer? target = none) :
    (graph.join source target).WellFormed := by
  refine wf.withEdge (edge?_unusedEdgeId graph) sourceNode targetNode ?_
  intro id other stored same
  have occupied := wf.producer?_of_edge? stored
  rw [same, free] at occupied
  cases occupied

theorem rewired_join (wf : graph.WellFormed) {source target : Port} (sourceNode : graph.hasNode source.node)
    (targetNode : graph.hasNode target.node) (free : graph.producer? target = none) :
    Rewired graph (graph.join source target) fun port =>
      if port = target then some source else graph.producer? port := by
  have joined := wf.join sourceNode targetNode free
  refine ⟨joined, fun _ => rfl, fun port => joined.producer?_eq fun other => ?_⟩
  simp only [Joins, Graph.join, edge?_withEdge]
  split
  next same =>
    subst same
    constructor
    · rintro ⟨id, edge, found, rfl, target⟩
      split at found
      · cases found; rfl
      next =>
        have occupied := wf.producer?_of_edge? found
        rw [target, free] at occupied
        cases occupied
    · intro same
      cases same
      exact ⟨graph.unusedEdgeId, _, if_pos rfl, rfl, rfl⟩
  next elsewhere =>
    rw [wf.producer?_eq_some_iff]
    constructor
    · rintro ⟨id, edge, found, source, target⟩
      split at found
      · cases found
        exact absurd target.symm elsewhere
      · exact ⟨id, edge, found, source, target⟩
    · rintro ⟨id, edge, found, source, target⟩
      refine ⟨id, edge, ?_, source, target⟩
      rw [if_neg, found]
      rintro rfl
      rw [edge?_unusedEdgeId] at found
      cases found

theorem joins_join (wf : graph.WellFormed) {source target : Port} (sourceNode : graph.hasNode source.node)
    (targetNode : graph.hasNode target.node) (free : graph.producer? target = none) (first second : Port) :
    (graph.join source target).Joins first second ↔ graph.Joins first second ∨ (first, second) = (source, target) := by
  have rewired := wf.rewired_join sourceNode targetNode free
  rw [← rewired.wellFormed.producer?_eq_some_iff, ← wf.producer?_eq_some_iff, rewired.producer?]
  by_cases here : second = target
  · subst here
    simp [free, eq_comm]
  · simp [here]

/-! ## Moving edges -/

end WellFormed

theorem edit_setSource_absent {graph : Graph} (old : Port) {new : Port} (absent : ¬ graph.hasNode new.node) :
    graph.edit (setSource old new) = (.error (.nodeNotFound new.node), graph) :=
  edit_bind_error (edit_requireNode_error absent) _

/-- Without a producer there is nothing to move. -/
theorem edit_setDestination_unfed {graph : Graph} {old new : Port} (present : graph.hasNode new.node)
    (unfed : graph.inEdge? old = none) : graph.edit (setDestination old new) = (.ok false, graph) := by
  rw [setDestination, edit_bind_ok (edit_requireNode_ok present), edit_bind_ok (edit_get graph), unfed]
  rfl

namespace WellFormed

variable {graph : Graph}

/-- Where one edge is taken out and two ports are joined, the other edges stay as they are. -/
theorem edge?_rejoined {edge other : Edge} (stored : graph.edge? edge.id = some edge)
    (known : graph.edge? other.id = some other) (different : other ≠ edge) (source target : Port) :
    ((graph.withoutEdge edge).join source target).edge? other.id = some other := by
  have kept : (graph.withoutEdge edge).edge? other.id = some other := by
    rw [edge?_withoutEdge, if_neg, known]
    intro same
    rw [← same, stored] at known
    exact different (Option.some.inj known).symm
  rw [Graph.join, edge?_withEdge, if_neg, kept]
  intro same
  have unused := edge?_unusedEdgeId (graph.withoutEdge edge)
  rw [show (graph.withoutEdge edge).unusedEdgeId = other.id from same, kept] at unused
  cases unused

/-- Lets another output port feed the input of an edge. -/
theorem edit_reconnect (wf : graph.WellFormed) {edge : Edge} (stored : graph.edge? edge.id = some edge)
    {new : Port} (present : graph.hasNode new.node) :
    ∃ after, graph.edit (do discard <| removeEdge edge.id; discard <| connect new edge.target) =
        (.ok (), after) ∧
      (∀ {other : Edge}, graph.edge? other.id = some other → other ≠ edge → after.edge? other.id = some other) ∧
      Rewired graph after fun port => if port = edge.target then some new else graph.producer? port := by
  have removed := wf.withoutEdge stored
  have free : (graph.withoutEdge edge).producer? edge.target = none := by
    rw [wf.producer?_withoutEdge stored, if_pos rfl]
  have source : (graph.withoutEdge edge).hasNode new.node := present
  have target : (graph.withoutEdge edge).hasNode edge.target.node := wf.hasNode_target stored
  have rewired := removed.rewired_join source target free
  have first : graph.edit (discard <| removeEdge edge.id) = (.ok (), graph.withoutEdge edge) :=
    edit_discard_ok (by rw [edit_removeEdge, stored])
  refine ⟨_, ?_, fun known different => edge?_rejoined stored known different _ _, rewired.wellFormed,
    rewired.node?, ?_⟩
  · rw [edit_bind_ok first, edit_discard_ok (edit_connect_ok source target free)]
  · intro port
    rw [rewired.producer?, wf.producer?_withoutEdge stored]
    split <;> rfl

private theorem edit_reconnectAll (wf : graph.WellFormed) {edges : List Edge}
    (stored : ∀ edge ∈ edges, graph.edge? edge.id = some edge) (distinct : edges.Nodup)
    {new : Port} (present : graph.hasNode new.node) :
    ∃ after, graph.edit (edges.forM fun edge => do
        discard <| removeEdge edge.id
        discard <| connect new edge.target) = (.ok (), after) ∧
      (∀ {other : Edge}, graph.edge? other.id = some other → other ∉ edges → after.edge? other.id = some other) ∧
      Rewired graph after fun port =>
        if port ∈ edges.map Edge.target then some new else graph.producer? port := by
  induction edges generalizing graph with
  | nil => exact ⟨graph, rfl, fun known _ => known, wf, fun _ => rfl, fun _ => by simp⟩
  | cons edge edges ih =>
    obtain ⟨absent, distinct⟩ := List.nodup_cons.mp distinct
    obtain ⟨middle, ran, kept, first⟩ := wf.edit_reconnect (stored edge (by simp)) present
    have remaining : ∀ other ∈ edges, middle.edge? other.id = some other := by
      intro other member
      refine kept (stored other (by simp [member])) ?_
      rintro rfl
      exact absent member
    obtain ⟨after, rest, keptAfter, later⟩ := ih first.wellFormed remaining distinct (first.hasNode new.node ▸ present)
    refine ⟨after, ?_, ?_, later.wellFormed, fun id => (later.node? id).trans (first.node? id), ?_⟩
    · rw [List.forM_eq_forM, List.forM_cons, edit_bind_ok ran, ← rest, List.forM_eq_forM]
    · intro other known outside
      obtain ⟨different, outside⟩ := not_or.mp (mt List.mem_cons.mpr outside)
      exact keptAfter (kept known different) outside
    · intro port
      rw [later.producer?, first.producer?]
      by_cases here : port = edge.target <;> simp [here]

theorem edit_setSource (wf : graph.WellFormed) (old : Port) {new : Port} (present : graph.hasNode new.node) :
    ∃ after, graph.edit (setSource old new) = (.ok (graph.outEdges old).length, after) ∧
      (∀ {edge : Edge}, graph.edge? edge.id = some edge → edge.source ≠ old → after.edge? edge.id = some edge) ∧
      Rewired graph after fun port =>
        (graph.producer? port).map fun source => if source = old then new else source := by
  have stored : ∀ edge ∈ graph.outEdges old, graph.edge? edge.id = some edge :=
    fun edge member => (wf.mem_outEdges.mp member).1
  obtain ⟨after, ran, kept, rewired⟩ := wf.edit_reconnectAll stored (wf.nodup_outEdges old) present
  refine ⟨after, ?_, ?_, rewired.wellFormed, rewired.node?, ?_⟩
  · rw [setSource, edit_bind_ok (edit_requireNode_ok present), edit_bind_ok (edit_get graph),
      edit_bind_ok ran, edit_pure]
  · intro edge known elsewhere
    exact kept known fun member => elsewhere (wf.mem_outEdges.mp member).2
  · intro port
    rw [rewired.producer?]
    have fed : port ∈ (graph.outEdges old).map Edge.target ↔ graph.producer? port = some old := by
      simp only [List.mem_map, wf.mem_outEdges, wf.producer?_eq_some_iff, wf.joins_iff, and_assoc]
    simp only [fed]
    cases producer : graph.producer? port with
    | none => simp
    | some source => by_cases same : source = old <;> simp [same]

/-- Once the edge is gone, the input it fed is free; another one may be occupied still. -/
theorem edit_setDestination_stored (wf : graph.WellFormed) {edge : Edge} {new : Port}
    (stored : graph.edge? edge.id = some edge) (present : graph.hasNode new.node) :
    graph.edit (setDestination edge.target new) =
      if new ≠ edge.target ∧ (graph.producer? new).isSome then
        (.error (.inputPortOccupied new.node new.index), graph.withoutEdge edge)
      else (.ok true, (graph.withoutEdge edge).join edge.source new) := by
  have found : graph.inEdge? edge.target = some edge := wf.inEdge?_eq_some_iff.mpr ⟨stored, rfl⟩
  have removed : graph.edit (discard <| removeEdge edge.id) = (.ok (), graph.withoutEdge edge) :=
    edit_discard_ok (by rw [edit_removeEdge, stored])
  have source : (graph.withoutEdge edge).hasNode edge.source.node := wf.hasNode_source stored
  have target : (graph.withoutEdge edge).hasNode new.node := present
  rw [setDestination, edit_bind_ok (edit_requireNode_ok present), edit_bind_ok (edit_get graph), found]
  simp only
  rw [edit_bind_ok removed, edit_bind, edit_discard, edit_connect_eq, source, target, wf.producer?_withoutEdge stored]
  by_cases same : new = edge.target
  · simp [same, Except.map]
  · cases graph.producer? new <;> simp [same, Except.map]

/-- Moving the producer of one input port to another one that is free, or back to where it was. -/
theorem edit_setDestination (wf : graph.WellFormed) {old new source : Port} (present : graph.hasNode new.node)
    (fed : graph.producer? old = some source) (free : graph.producer? new = none ∨ new = old) :
    ∃ after, graph.edit (setDestination old new) = (.ok true, after) ∧
      (∀ {edge : Edge}, graph.edge? edge.id = some edge → edge.target ≠ old → after.edge? edge.id = some edge) ∧
      Rewired graph after fun port =>
        if port = new then some source else if port = old then none else graph.producer? port := by
  obtain ⟨edge, found, rfl⟩ := Option.map_eq_some_iff.mp fed
  obtain ⟨stored, rfl⟩ := wf.inEdge?_eq_some_iff.mp found
  have removed := wf.withoutEdge stored
  have vacant : (graph.withoutEdge edge).producer? new = none := by
    rw [wf.producer?_withoutEdge stored]
    rcases free with free | same
    · rw [free, ite_self]
    · rw [if_pos same]
  have sourceNode : (graph.withoutEdge edge).hasNode edge.source.node := wf.hasNode_source stored
  have targetNode : (graph.withoutEdge edge).hasNode new.node := present
  have rewired := removed.rewired_join sourceNode targetNode vacant
  refine ⟨_, ?_, ?_, rewired.wellFormed, rewired.node?, ?_⟩
  · rw [wf.edit_setDestination_stored stored present, if_neg]
    rcases free with free | same <;> simp [*]
  · intro other known elsewhere
    exact edge?_rejoined stored known (fun same => elsewhere (congrArg Edge.target same)) _ _
  · intro port
    rw [rewired.producer?, wf.producer?_withoutEdge stored]

end WellFormed
end OpGraph.Graph
