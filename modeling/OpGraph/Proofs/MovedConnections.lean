import OpGraph.Proofs.Histories
import OpGraph.Proofs.SameStructure

/-! Moving edges from one port to another. Each edge that moves is taken out and its ports are joined anew, so an input
port is free whenever it is fed. What is left has the former connections with one port in the place of another, and
the edges that do not touch that port are the ones that were there. -/

namespace OpGraph

def Port.replaced (old new port : Port) : Port := if port = old then new else port

/-- Where `new` is not among the ports, or is `old` itself, no two ports become one. -/
theorem Port.replaced_injOn {old new : Port} {ports : List Port} (free : new ∉ ports ∨ new = old) :
    ∀ first ∈ ports, ∀ second ∈ ports, replaced old new first = replaced old new second → first = second := by
  intro first member second other same
  unfold replaced at same
  split at same <;> split at same
  next left right => exact left.trans right.symm
  next left _ =>
    obtain absent | unmoved := free
    · exact absurd (same ▸ other) absent
    · exact left.trans (unmoved.symm.trans same)
  next _ right =>
    obtain absent | unmoved := free
    · exact absurd (same ▸ member) absent
    · exact same.trans (unmoved.trans right.symm)
  next => exact same

namespace Graph

theorem perm_connections (graph : Graph) : graph.connections.Perm (graph.edgeList.map Edge.link) :=
  List.mergeSort_perm _ _

namespace WellFormed

variable {graph : Graph}

theorem mem_connections (wf : graph.WellFormed) {source target : Port} :
    (source, target) ∈ graph.connections ↔ graph.producer? target = some source :=
  graph.perm_connections.mem_iff.trans (wf.mem_links.trans wf.producer?_eq_some_iff.symm)

theorem nodup_connections (wf : graph.WellFormed) : graph.connections.Nodup :=
  graph.perm_connections.nodup_iff.mpr wf.nodup_links

/-- An input port is fed once. -/
theorem nodup_fed (wf : graph.WellFormed) : (graph.connections.map Prod.snd).Nodup := by
  apply (graph.perm_connections.map Prod.snd).nodup_iff.mpr
  rw [List.map_map]
  exact wf.nodup_targets

theorem mem_fed (wf : graph.WellFormed) {port : Port} :
    port ∈ graph.connections.map Prod.snd ↔ (graph.producer? port).isSome := by
  simp only [List.mem_map, Prod.exists, wf.mem_connections, exists_eq_right, Option.isSome_iff_exists]

theorem any_target (wf : graph.WellFormed) (port : Port) :
    (graph.edgeList.any fun edge => edge.target = port) = (graph.producer? port).isSome := by
  rw [Bool.eq_iff_iff, List.any_eq_true, Option.isSome_iff_exists]
  simp only [wf.mem_edgeList, decide_eq_true_eq]
  constructor
  · intro ⟨edge, stored, target⟩
    exact ⟨edge.source, target ▸ wf.producer?_of_edge? stored⟩
  · intro ⟨source, found⟩
    obtain ⟨edge, stored, _, target⟩ := wf.joins_iff.mp (wf.producer?_eq_some_iff.mp found)
    exact ⟨edge, stored, target⟩

theorem perm_outEdges (wf : graph.WellFormed) (port : Port) :
    (graph.outEdges port).Perm (graph.edgeList.filter fun edge => edge.source = port) := by
  apply (List.perm_ext_iff_of_nodup (wf.nodup_outEdges port) (wf.nodup_edgeList.filter _)).mpr
  intro edge
  simp only [wf.mem_outEdges, List.mem_filter, wf.mem_edgeList, decide_eq_true_eq]

end WellFormed

/-- The second graph is the first, with the edges that touch a port joined anew and all other edges in place. -/
structure Moved (before after : Graph) (touches : Edge → Prop) (move : Port × Port → Port × Port) : Prop where
  wellFormed : after.WellFormed
  nodes : after.nodes = before.nodes
  others : ∀ edge ∈ before.edgeList, ¬ touches edge → edge ∈ after.edgeList
  connections : after.connections.Perm (before.connections.map move)

/-- Connections are known from what feeds each input port, as long as no two of them move to the same one. -/
theorem Rewired.moved {before after : Graph} {producer : Port → Option Port} (rewired : Rewired before after producer)
    (wf : before.WellFormed) {touches : Edge → Prop} {move : Port × Port → Port × Port}
    (others : ∀ edge : Edge, before.edge? edge.id = some edge → ¬ touches edge → after.edge? edge.id = some edge)
    (apart : ((before.connections.map move).map Prod.snd).Nodup)
    (moves : ∀ source target, producer target = some source ↔ (source, target) ∈ before.connections.map move) :
    Moved before after touches move := by
  refine ⟨rewired.wellFormed, Std.ExtTreeMap.ext_getElem? rewired.node?, ?_, ?_⟩
  · intro edge member untouched
    exact rewired.wellFormed.mem_edgeList.mpr (others edge (wf.mem_edgeList.mp member) untouched)
  · apply (List.perm_ext_iff_of_nodup rewired.wellFormed.nodup_connections (.of_map _ apart)).mpr
    intro (source, target)
    rw [rewired.wellFormed.mem_connections, rewired.producer?]
    exact moves source target

namespace WellFormed

variable {graph : Graph} (wf : graph.WellFormed)
include wf

/-- Every input that `old` feeds is fed by `new`, also where the two are one, and where the input is a port of the new
source. -/
theorem moved_setSource [EdgeIdSupply] (old : Port) {new : Port} (present : graph.hasNode new.node) :
    ∃ after, graph.edit (setSource old new) =
        (.ok (graph.edgeList.filter fun edge => edge.source = old).length, after) ∧
      Moved graph after (fun edge => edge.source = old) (Prod.map (Port.replaced old new) id) := by
  obtain ⟨after, ran, others, rewired⟩ := wf.edit_setSource old present
  rw [(wf.perm_outEdges old).length_eq] at ran
  refine ⟨after, ran, rewired.moved wf (fun _ stored untouched => others stored untouched) ?_ ?_⟩
  · rw [List.map_map]
    exact wf.nodup_fed
  · intro source target
    simp only [Option.map_eq_some_iff, List.mem_map, Prod.exists, wf.mem_connections, Prod.map, Prod.mk.injEq, id]
    constructor
    · intro feeds
      obtain ⟨former, found, same⟩ := feeds
      exact ⟨former, target, found, same, rfl⟩
    · intro moves
      obtain ⟨former, _, found, same, here⟩ := moves
      exact ⟨former, here ▸ found, same⟩

/-- Without a producer there is nothing to move. -/
theorem moved_unfed {old : Port} (new : Port) (unfed : graph.producer? old = none) :
    Moved graph graph (fun edge => edge.target = old) (Prod.map id (Port.replaced old new)) := by
  refine ⟨wf, rfl, fun _ member _ => member, ?_⟩
  have unmoved : ∀ link ∈ graph.connections, Prod.map id (Port.replaced old new) link = link := by
    intro (source, target) member
    have elsewhere : target ≠ old := by
      intro same
      rw [wf.mem_connections, same, unfed] at member
      cases member
    exact Prod.ext rfl (if_neg elsewhere)
  rw [List.map_congr_left unmoved, List.map_id']

/-- The producer of `old` feeds `new`, which is free or `old` itself. -/
theorem moved_setDestination [EdgeIdSupply] {old new : Port} (present : graph.hasNode new.node)
    (free : (∀ source, ¬ graph.Joins source new) ∨ new = old) :
    ∃ after, graph.edit (setDestination old new) = (.ok (graph.edgeList.any fun edge => edge.target = old), after) ∧
      Moved graph after (fun edge => edge.target = old) (Prod.map id (Port.replaced old new)) := by
  rw [← wf.producer?_eq_none_iff] at free
  rw [wf.any_target]
  cases fed : graph.producer? old with
  | none =>
    have unfed : graph.inEdge? old = none := Option.map_eq_none_iff.mp fed
    exact ⟨graph, edit_setDestination_unfed present unfed, wf.moved_unfed new fed⟩
  | some source =>
    obtain ⟨after, ran, others, rewired⟩ := wf.edit_setDestination present fed free
    refine ⟨after, ran, rewired.moved wf (fun _ stored untouched => others stored untouched) ?_ ?_⟩
    · have targets : (graph.connections.map (Prod.map id (Port.replaced old new))).map Prod.snd =
          (graph.connections.map Prod.snd).map (Port.replaced old new) := by
        simp only [List.map_map, Function.comp_def, Prod.map]
      rw [targets]
      apply wf.nodup_fed.map_on
      apply Port.replaced_injOn
      refine free.imp_left ?_
      intro unfed member
      rw [wf.mem_fed, unfed] at member
      cases member
    · intro producer target
      simp only [List.mem_map, Prod.exists, wf.mem_connections, Prod.map, Prod.mk.injEq, id]
      constructor
      · intro feeds
        split at feeds
        next here => exact ⟨source, old, fed, Option.some.inj feeds, (if_pos rfl).trans here.symm⟩
        next =>
          split at feeds
          next => cases feeds
          next elsewhere => exact ⟨producer, target, feeds, rfl, if_neg elsewhere⟩
      · intro moved
        obtain ⟨former, port, found, same, here⟩ := moved
        subst same here
        by_cases moves : port = old
        · subst moves
          rw [fed] at found
          simp [Port.replaced, found]
        · have apart : port ≠ new := by
            rintro rfl
            obtain unfed | unmoved := free
            · rw [unfed] at found
              cases found
            · exact moves unmoved
          simp [Port.replaced, moves, apart, found]

end WellFormed

variable {graph : Graph}

/-- All that an output feeds is moved, unless the node of the new output is absent; the producer of an input is moved to
one that is free, or back to where it was. -/
theorem rewiring_moves_connections [EdgeIdSupply] (wf : graph.WellFormed) (old new : Port) :
    (¬ graph.hasNode new.node → graph.edit (setSource old new) = (.error (.nodeNotFound new.node), graph)) ∧
    (graph.hasNode new.node → ∃ after,
      graph.edit (setSource old new) = (.ok (graph.edgeList.filter fun edge => edge.source = old).length, after) ∧
      Moved graph after (fun edge => edge.source = old) (Prod.map (Port.replaced old new) id)) ∧
    (graph.hasNode new.node → (∀ source, ¬ graph.Joins source new) ∨ new = old → ∃ after,
      graph.edit (setDestination old new) = (.ok (graph.edgeList.any fun edge => edge.target = old), after) ∧
      Moved graph after (fun edge => edge.target = old) (Prod.map id (Port.replaced old new))) :=
  ⟨edit_setSource_absent old, wf.moved_setSource old, wf.moved_setDestination⟩

/-- An output with two consumers, one of which feeds a third node. -/
def branched : Graph := Graph.empty.history
  [.addNode (.parameter "p" none), .addNode { id := "a", kind := .squeeze }, .addNode { id := "b", kind := .squeeze },
    .connect ⟨"p", 0⟩ ⟨"a", 0⟩, .connect ⟨"p", 0⟩ ⟨"a", 1⟩, .connect ⟨"a", 0⟩ ⟨"b", 0⟩]

/-- Two inputs of `a` are moved onto its own output, the input of `b` is moved aside, and one of `a` back to where it
was. -/
theorem rewiring_moves_connections_branched : branched.WellFormed ∧
    branched.edit (setSource ⟨"p", 0⟩ ⟨"q", 0⟩) = (.error (.nodeNotFound "q"), branched) ∧
    (∃ after, branched.edit (setSource ⟨"p", 0⟩ ⟨"a", 0⟩) = (.ok 2, after) ∧
      after.connections.Perm [(⟨"a", 0⟩, ⟨"a", 0⟩), (⟨"a", 0⟩, ⟨"a", 1⟩), (⟨"a", 0⟩, ⟨"b", 0⟩)]) ∧
    (∃ after, branched.edit (setDestination ⟨"b", 0⟩ ⟨"b", 1⟩) = (.ok true, after) ∧
      after.connections.Perm [(⟨"p", 0⟩, ⟨"a", 0⟩), (⟨"p", 0⟩, ⟨"a", 1⟩), (⟨"a", 0⟩, ⟨"b", 1⟩)]) ∧
    (∃ after, branched.edit (setDestination ⟨"a", 1⟩ ⟨"a", 1⟩) = (.ok true, after) ∧
      after.connections.Perm [(⟨"p", 0⟩, ⟨"a", 0⟩), (⟨"p", 0⟩, ⟨"a", 1⟩), (⟨"a", 0⟩, ⟨"b", 0⟩)]) := by
  have wf : branched.WellFormed := wellFormed_empty.history _
  have former : branched.edgeList.map Edge.link =
      [(⟨"p", 0⟩, ⟨"a", 0⟩), (⟨"p", 0⟩, ⟨"a", 1⟩), (⟨"a", 0⟩, ⟨"b", 0⟩)] := by decide +kernel
  have links := branched.perm_connections.trans (.of_eq former)
  have vacant : branched.producer? ⟨"b", 1⟩ = none := by decide +kernel
  have free : ∀ source, ¬ branched.Joins source ⟨"b", 1⟩ := wf.producer?_eq_none_iff.mp vacant
  refine ⟨wf, (rewiring_moves_connections wf _ ⟨"q", 0⟩).1 (by decide +kernel), ?_, ?_, ?_⟩
  · obtain ⟨after, ran, moved⟩ := (rewiring_moves_connections wf ⟨"p", 0⟩ ⟨"a", 0⟩).2.1 (by decide +kernel)
    exact ⟨after, ran, moved.connections.trans (links.map _)⟩
  · obtain ⟨after, ran, moved⟩ := (rewiring_moves_connections wf ⟨"b", 0⟩ ⟨"b", 1⟩).2.2 (by decide +kernel) (.inl free)
    exact ⟨after, ran, moved.connections.trans (links.map _)⟩
  · obtain ⟨after, ran, moved⟩ := (rewiring_moves_connections wf ⟨"a", 1⟩ ⟨"a", 1⟩).2.2 (by decide +kernel) (.inr rfl)
    exact ⟨after, ran, moved.connections.trans (links.map _)⟩

end Graph
end OpGraph
