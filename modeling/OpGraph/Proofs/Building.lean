import OpGraph.Proofs.Catalog
import OpGraph.Proofs.SameStructure

/-! Graphs built from what a history of calls has declared. The connections are made in the order in which they were
recorded, and the first that cannot be made decides the error. Which one that is depends on the nodes at the ends of
connections alone, so both ways of building agree on it. -/

namespace OpGraph

open OpGraph.Graph (requireNode connect addNode)

/-! ## Faults -/

/-- What is wrong with the first link that cannot be made, where some nodes are there and some input ports are fed. -/
def linkFault? (present : NodeId → Bool) (fed : List Port) : List (Port × Port) → Option GraphError
  | [] => none
  | (source, target) :: links =>
    if !present source.node then some (.nodeNotFound source.node)
    else if !present target.node then some (.nodeNotFound target.node)
    else if target ∈ fed then some (.inputPortOccupied target.node target.index)
    else linkFault? present (target :: fed) links

section
variable {ε α : Type} {fault : Option ε} {value result : α}

theorem elim_eq_ok : fault.elim (Except.ok value) .error = .ok result ↔ fault = none ∧ value = result := by
  cases fault <;> simp

theorem elim_eq_error {error : ε} : fault.elim (Except.ok value) .error = .error error ↔ fault = some error := by
  cases fault <;> simp

end

section
variable {present : NodeId → Bool} {fed : List Port} {links : List (Port × Port)}

theorem linkFault?_eq_none_iff : linkFault? present fed links = none ↔
    (∀ link ∈ links, present link.1.node ∧ present link.2.node) ∧ (links.map Prod.snd).Nodup ∧
      ∀ port ∈ fed, port ∉ links.map Prod.snd := by
  induction links generalizing fed with
  | nil => simp [linkFault?]
  | cons link links ih =>
    obtain ⟨source, target⟩ := link
    have apart : (∀ port ∈ fed, port ∉ target :: links.map Prod.snd) ↔
        target ∉ fed ∧ ∀ port ∈ fed, port ∉ links.map Prod.snd := by
      simp only [List.mem_cons, not_or]
      grind
    simp only [linkFault?, List.map_cons, apart, List.nodup_cons, List.forall_mem_cons]
    split_ifs with noSource noTarget occupied
    · simp_all
    · simp_all
    · simp [occupied]
    · rw [ih, List.forall_mem_cons]
      simp_all only [Bool.not_eq_true', Bool.not_eq_false, not_false_eq_true, true_and]
      tauto

theorem linkFault?_ne_duplicateNode (id : NodeId) : linkFault? present fed links ≠ some (.duplicateNode id) := by
  induction links generalizing fed with
  | nil => simp [linkFault?]
  | cons link links ih =>
    simp only [linkFault?]
    grind

/-- Only the nodes at the ends of links matter. -/
theorem linkFault?_congr {other : NodeId → Bool}
    (same : ∀ link ∈ links, present link.1.node = other link.1.node ∧ present link.2.node = other link.2.node) :
    linkFault? present fed links = linkFault? other fed links := by
  induction links generalizing fed with
  | nil => rfl
  | cons link links ih =>
    obtain ⟨here, rest⟩ := List.forall_mem_cons.mp same
    simp only [linkFault?, here.1, here.2, ih rest]

end

/-! ## Joining the recorded ports -/

def joinNamed [EdgeIdSupply] (link : Port × Port) : Edit GraphError Unit := do
  requireNode link.1.node
  requireNode link.2.node
  discard <| connect link.1 link.2

namespace Graph

theorem edit_joinNamed [EdgeIdSupply] (graph : Graph) (source target : Port) : graph.edit (joinNamed (source, target)) =
    if !graph.hasNode source.node then (.error (.nodeNotFound source.node), graph)
    else if !graph.hasNode target.node then (.error (.nodeNotFound target.node), graph)
    else if (graph.producer? target).isSome then (.error (.inputPortOccupied target.node target.index), graph)
    else (.ok (), graph.join source target) := by
  simp only [joinNamed, edit_bind, edit_requireNode, edit_discard, edit_connect_eq]
  grind [Except.map]

/-- The links are made one after another up to the first that cannot be made. -/
theorem WellFormed.edit_joinAll [EdgeIdSupply] {graph : Graph} (wf : graph.WellFormed) {fed : List Port}
    (known : ∀ port, port ∈ fed ↔ (graph.producer? port).isSome) (links : List (Port × Port)) :
    ∃ after, graph.edit (links.forM joinNamed) = ((linkFault? graph.hasNode fed links).elim (.ok ()) .error, after) ∧
      after.WellFormed ∧ (∀ id, after.node? id = graph.node? id) ∧
      (linkFault? graph.hasNode fed links = none →
        ∀ source target, after.Joins source target ↔ graph.Joins source target ∨ (source, target) ∈ links) := by
  induction links generalizing graph fed with
  | nil => exact ⟨graph, rfl, wf, fun _ => rfl, by simp⟩
  | cons link links ih =>
    obtain ⟨source, target⟩ := link
    have ran := graph.edit_joinNamed source target
    rw [List.forM_eq_forM, List.forM_cons, ← List.forM_eq_forM]
    simp only [linkFault?, known]
    split_ifs at ran ⊢ with noSource noTarget occupied
    · exact ⟨graph, edit_bind_error ran _, wf, fun _ => rfl, nofun⟩
    · exact ⟨graph, edit_bind_error ran _, wf, fun _ => rfl, nofun⟩
    · exact ⟨graph, edit_bind_error ran _, wf, fun _ => rfl, nofun⟩
    · have sourceNode : graph.hasNode source.node := by simpa using noSource
      have targetNode : graph.hasNode target.node := by simpa using noTarget
      have free : graph.producer? target = none := by simpa using occupied
      have rewired := wf.rewired_join sourceNode targetNode free
      have knownLater (port : Port) : port ∈ target :: fed ↔ ((graph.join source target).producer? port).isSome := by
        rw [rewired.producer?, List.mem_cons, known]
        split <;> simp [*]
      obtain ⟨after, rest, last, nodes, joins⟩ := ih rewired.wellFormed knownLater
      have present : (graph.join source target).hasNode = graph.hasNode := funext rewired.hasNode
      rw [present] at rest joins
      refine ⟨after, (edit_bind_ok ran _).trans rest, last, fun id => (nodes id).trans (rewired.node? id), ?_⟩
      intro possible first second
      rw [joins possible, wf.joins_join sourceNode targetNode free, List.mem_cons, or_assoc]

theorem joins_foldl_empty {nodes : List Node} (source target : Port) :
    ¬ (nodes.foldl withNode empty).Joins source target := by
  rintro ⟨id, edge, stored, _⟩
  rw [edge?_foldl_empty] at stored
  cases stored

structure ConsistsOf (graph : Graph) (node? : NodeId → Option Node) (links : List (Port × Port)) : Prop where
  wellFormed : graph.WellFormed
  node? : ∀ id, graph.node? id = node? id
  links : (graph.edgeList.map Edge.link).Perm links

end Graph

namespace GraphBuilder

/-! ## Building -/

def kept? (builder : GraphBuilder) (keep : NodeId → Bool) (id : NodeId) : Option Node :=
  if keep id then builder.registered? id else none

theorem assemble_eq [EdgeIdSupply] (builder : GraphBuilder) (keep : NodeId → Bool) : builder.assemble keep = (do
    (builder.catalog.filter fun node => keep node.id).forM fun node => discard <| addNode node
    builder.connections.forM joinNamed) := rfl

namespace Indexed

variable {builder : GraphBuilder}

/-- All nodes that are kept can be added. -/
theorem edit_addKept (indexed : builder.Indexed) (keep : NodeId → Bool) :
    ∃ graph,
      Graph.empty.edit ((builder.catalog.filter fun node => keep node.id).forM fun node => discard <| addNode node) =
        (.ok (), graph) ∧ graph.WellFormed ∧ (∀ id, graph.node? id = builder.kept? keep id) ∧
      ∀ source target, ¬ graph.Joins source target := by
  have distinct : ((builder.catalog.filter fun node => keep node.id).map Node.id).Nodup :=
    indexed.distinct.sublist (List.filter_sublist.map Node.id)
  have accepts := Graph.acceptsNodes_empty.mpr distinct
  refine ⟨_, Graph.edit_addNodes_eq_ok.mpr ⟨accepts, rfl⟩, accepts.wellFormed Graph.wellFormed_empty, ?_,
    Graph.joins_foldl_empty⟩
  intro id
  ext node
  have absent : Graph.empty.node? id = none := by simp [Graph.empty, Graph.node?]
  rw [accepts.node?_foldl, absent, kept?, Option.ite_none_right_eq_some, indexed.registered?_eq_some_iff,
    List.mem_filter]
  grind

theorem buildKeeping [EdgeIdSupply] (indexed : builder.Indexed) (keep : NodeId → Bool) :
    ∃ graph, builder.buildKeeping keep =
        (linkFault? (fun id => (builder.kept? keep id).isSome) [] builder.connections).elim (.ok graph) .error ∧
      (linkFault? (fun id => (builder.kept? keep id).isSome) [] builder.connections = none →
        graph.ConsistsOf (builder.kept? keep) builder.connections) := by
  obtain ⟨middle, added, wf, nodes, unjoined⟩ := indexed.edit_addKept keep
  have unfed (port : Port) : port ∈ [] ↔ (middle.producer? port).isSome := by
    simp [wf.producer?_eq_none_iff.mpr fun source => unjoined source port]
  obtain ⟨graph, joined, last, sameNodes, joins⟩ := wf.edit_joinAll unfed builder.connections
  have present : middle.hasNode = fun id => (builder.kept? keep id).isSome := by
    funext id
    rw [Graph.hasNode_eq_isSome, nodes]
  rw [present] at joined joins
  refine ⟨graph, ?_, ?_⟩
  · rw [GraphBuilder.buildKeeping, assemble_eq, Graph.edit_bind_ok added, joined]
    cases linkFault? (fun id => (builder.kept? keep id).isSome) [] builder.connections <;> rfl
  · intro possible
    obtain ⟨_, targets, _⟩ := linkFault?_eq_none_iff.mp possible
    refine ⟨last, fun id => (sameNodes id).trans (nodes id), ?_⟩
    apply (List.perm_ext_iff_of_nodup last.nodup_links targets.of_map).mpr
    rintro ⟨source, target⟩
    rw [last.mem_links, joins possible]
    simp [unjoined]

end Indexed

def endNodes (links : List (Port × Port)) : List NodeId := links.flatMap fun link => [link.1.node, link.2.node]

/-- Why the graph of all registered nodes cannot be built. -/
def fault? (builder : GraphBuilder) : Option GraphError :=
  linkFault? (fun id => (builder.registered? id).isSome) [] builder.connections

namespace Indexed

variable {builder : GraphBuilder}

theorem fault?_eq_none_iff (indexed : builder.Indexed) : builder.fault? = none ↔
    (∀ id ∈ endNodes builder.connections, id ∈ builder.catalog.map Node.id) ∧
      (builder.connections.map Prod.snd).Nodup := by
  have present (id : NodeId) : (builder.registered? id).isSome ↔ id ∈ builder.catalog.map Node.id := by
    rw [Option.isSome_iff_exists, List.mem_map]
    simp only [indexed.registered?_eq_some_iff]
  simp only [fault?, linkFault?_eq_none_iff, present, endNodes, List.mem_flatMap]
  grind

theorem build [EdgeIdSupply] (indexed : builder.Indexed) :
    ∃ graph, builder.build = builder.fault?.elim (.ok graph) .error ∧
    (builder.fault? = none → graph.ConsistsOf builder.registered? builder.connections) := by
  have all : builder.kept? (fun _ => true) = builder.registered? := rfl
  have kept := indexed.buildKeeping fun _ => true
  rwa [all] at kept

/-- All nodes at the ends of connections are kept, so the same connections are refused. -/
theorem buildConnected [EdgeIdSupply] (indexed : builder.Indexed) :
    ∃ graph, builder.buildConnected = builder.fault?.elim (.ok graph) .error ∧ (builder.fault? = none → graph.ConsistsOf
      (fun id => if id ∈ endNodes builder.connections then builder.registered? id else none) builder.connections) := by
  have kept : builder.kept? (endNodes builder.connections).contains =
      fun id => if id ∈ endNodes builder.connections then builder.registered? id else none := by
    funext id
    simp [kept?]
  have same : linkFault? (fun id => (builder.kept? (endNodes builder.connections).contains id).isSome) []
      builder.connections = builder.fault? := by
    apply linkFault?_congr
    intro link member
    have ends : link.1.node ∈ endNodes builder.connections ∧ link.2.node ∈ endNodes builder.connections := by
      simp only [endNodes, List.mem_flatMap]
      grind
    simp [kept, ends]
  rw [← kept, ← same]
  exact indexed.buildKeeping _

end Indexed

/-- What is built is what the calls have declared and recorded, however they come one after another. -/
theorem builds_declared [EdgeIdSupply] (calls : List Call) :
    let recorded := calls.flatMap Call.recorded
    (history calls).connections = recorded ∧
    (∀ id, (history calls).build ≠ .error (.duplicateNode id)) ∧
    ((history calls).build.isOk ↔
      (∀ id ∈ endNodes recorded, id ∈ (history calls).catalog.map Node.id) ∧ (recorded.map Prod.snd).Nodup) ∧
    (∀ graph, (history calls).build = .ok graph → graph.ConsistsOf (declared? calls) recorded) ∧
    (∀ error, (history calls).buildConnected = .error error ↔ (history calls).build = .error error) ∧
    (∀ graph, (history calls).build = .ok graph → ∃ part, (history calls).buildConnected = .ok part ∧
      part.ConsistsOf (fun id => if id ∈ endNodes recorded then graph.node? id else none) recorded) ∧
    ∀ source target error, ((history calls).recordIn source target).1 = .error error →
      history (calls ++ [.connect source target]) = history calls := by
  have connections := connections_history calls
  have declared : (history calls).registered? = declared? calls := funext (registered?_history calls)
  obtain ⟨whole, built, contents⟩ := (indexed_history calls).build
  obtain ⟨part, builtPart, partContents⟩ := (indexed_history calls).buildConnected
  have possible := (indexed_history calls).fault?_eq_none_iff
  rw [connections] at possible contents partContents
  rw [declared] at contents partContents
  simp only [built, builtPart, elim_eq_ok, elim_eq_error, isOk_iff, ← possible]
  refine ⟨connections, ?_, by simp, ?_, by simp, ?_, ?_⟩
  · intro id failed
    exact linkFault?_ne_duplicateNode id (elim_eq_error.mp failed)
  · rintro graph ⟨free, rfl⟩
    exact contents free
  · rintro graph ⟨free, rfl⟩
    obtain ⟨partWf, partNode?, partLinks⟩ := partContents free
    refine ⟨part, ⟨free, rfl⟩, partWf, ?_, partLinks⟩
    intro id
    rw [partNode?, (contents free).node?]
  · intro source target error refused
    simpa [history, Call.apply] using recordIn_error (Prod.ext refused rfl)

/-- A node is replaced, one is left over, and a connection cannot be read. -/
theorem builds_declared_spare :
    let calls : List Call := [.node (.parameter "x" none), .node { id := "r", kind := .shapeOf }, .connect "x:" "r",
      .nodes [{ id := "r", kind := .rank }, .result "spare"], .connect "x" "0:r"]
    ((history calls).recordIn "x:" "r").1 = .error (.invalidPortSpec "x:") ∧
      history (calls ++ [.connect "x:" "r"]) = history calls ∧
      ∃ graph part, (history calls).build = .ok graph ∧ (history calls).buildConnected = .ok part ∧
        graph.node? "r" = some { id := "r", kind := .rank } ∧ graph.node? "spare" = some (.result "spare") ∧
        part.node? "r" = some { id := "r", kind := .rank } ∧ part.node? "spare" = none ∧
        (graph.edgeList.map Edge.link).Perm [(⟨"x", 0⟩, ⟨"r", 0⟩)] ∧
        (part.edgeList.map Edge.link).Perm [(⟨"x", 0⟩, ⟨"r", 0⟩)] := by
  intro calls
  have recorded : calls.flatMap Call.recorded = [(⟨"x", 0⟩, ⟨"r", 0⟩)] := by decide +kernel
  have refused : ((history calls).recordIn "x:" "r").1 = .error (.invalidPortSpec "x:") := by decide +kernel
  obtain ⟨_, _, possible, contents, _, connected, unread⟩ := builds_declared calls
  obtain ⟨graph, built⟩ := isOk_iff.mp (possible.mpr (by decide +kernel))
  obtain ⟨part, builtPart, partContents⟩ := connected graph built
  have whole := contents graph built
  rw [recorded] at whole partContents
  refine ⟨refused, unread _ _ _ refused, graph, part, built, builtPart, ?_, ?_, ?_, ?_, whole.links, partContents.links⟩
  · rw [whole.node?]
    decide +kernel
  · rw [whole.node?]
    decide +kernel
  · rw [partContents.node?, whole.node?]
    decide +kernel
  · rw [partContents.node?, whole.node?]
    decide +kernel

end GraphBuilder
end OpGraph
