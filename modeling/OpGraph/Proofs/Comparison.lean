import OpGraph.Proofs.Histories
import OpGraph.Proofs.Pairing
import Mathlib.Data.Set.Function

/-! Comparison finds no difference exactly between graphs that are isomorphic as far as the compared node
can see: nothing that it reports is spurious, and nothing that tells the two apart goes unreported. -/

namespace OpGraph.Graph

/-- A one-to-one map between what leads to a node in two graphs, which respects all that is compared. -/
structure ConeIsomorphism (graph reference : Graph) (last : NodeId) (options : CompareOptions)
    (counterpart : NodeId → NodeId) : Prop where
  bijective : Set.BijOn counterpart {id | graph.Reaches id last} {id | reference.Reaches id last}
  fixes : counterpart last = last
  nodes : ∀ {id}, graph.Reaches id last → ∃ node expected, graph.node? id = some node ∧
    reference.node? (counterpart id) = some expected ∧ NodesAgree options node expected
  consumers : ∀ {id}, graph.Reaches id last →
    (graph.outgoingEdges id).length = (reference.outgoingEdges (counterpart id)).length
  inputs : ∀ {id}, graph.Reaches id last → graph.connectedInputs id = reference.connectedInputs (counterpart id)
  producers : ∀ {id index source}, graph.Reaches id last → graph.producer? ⟨id, index⟩ = some source →
    reference.producer? ⟨counterpart id, index⟩ = some ⟨counterpart source.node, source.index⟩

namespace Pairing

variable {graph reference : Graph} {last : NodeId} {options : CompareOptions} {pairing : Pairing}

/-! ## No difference is missed -/

def Agrees (graph reference : Graph) (options : CompareOptions) (pairing : Pairing) : Prop :=
  ∀ {id counterpart : NodeId}, pairing.forward[id]? = some counterpart →
    Matches graph reference options pairing id counterpart

def counterpart (pairing : Pairing) (id : NodeId) : NodeId := (pairing.forward[id]?).getD id

theorem counterpart_eq {id counterpart : NodeId} (known : pairing.forward[id]? = some counterpart) :
    pairing.counterpart id = counterpart := by
  rw [Pairing.counterpart, known, Option.getD_some]

theorem Settled.agrees (settled : Settled graph reference options pairing) (finished : pairing.waiting = []) :
    Agrees graph reference options pairing := by
  intro id counterpart known
  refine settled known ?_
  rw [finished]
  exact List.not_mem_nil

/-- All that leads to the last node is paired: where a consumer is, its inputs are. -/
theorem Paired.covers (paired : Paired graph reference last pairing) (wf : graph.WellFormed)
    (agrees : Agrees graph reference options pairing) {id : NodeId} (reaches : graph.Reaches id last) :
    pairing.forward[id]? = some (pairing.counterpart id) := by
  suffices covered : ∃ counterpart : NodeId, pairing.forward[id]? = some counterpart by
    obtain ⟨counterpart, known⟩ := covered
    rw [counterpart_eq known, known]
  induction reaches using Relation.ReflTransGen.head_induction_on with
  | refl => exact ⟨last, paired.start⟩
  | head feeds _ ih =>
    obtain ⟨counterpart, known⟩ := ih
    obtain ⟨index, source, found, same⟩ := wf.exists_producer?_of_feeds feeds
    subst same
    have connected := wf.isSome_producer?.mp (Option.isSome_iff_exists.mpr ⟨source, found⟩)
    obtain ⟨source', expected, found', _, _, matched⟩ := (agrees known).producers index connected
    rw [found] at found'
    cases found'
    exact ⟨expected.node, matched⟩

theorem Paired.covers_reference (paired : Paired graph reference last pairing) (referenceWf : reference.WellFormed)
    (agrees : Agrees graph reference options pairing) {counterpart : NodeId}
    (reaches : reference.Reaches counterpart last) : ∃ id : NodeId, pairing.forward[id]? = some counterpart := by
  induction reaches using Relation.ReflTransGen.head_induction_on with
  | refl => exact ⟨last, paired.start⟩
  | head feeds _ ih =>
    obtain ⟨id, known⟩ := ih
    obtain ⟨index, expected, found, same⟩ := referenceWf.exists_producer?_of_feeds feeds
    subst same
    have connected := referenceWf.isSome_producer?.mp (Option.isSome_iff_exists.mpr ⟨expected, found⟩)
    rw [← (agrees known).inputs] at connected
    obtain ⟨source, expected', _, found', _, matched⟩ := (agrees known).producers index connected
    rw [found] at found'
    cases found'
    exact ⟨source.node, matched⟩

theorem Paired.bijective (paired : Paired graph reference last pairing) (wf : graph.WellFormed)
    (referenceWf : reference.WellFormed) (agrees : Agrees graph reference options pairing) :
    Set.BijOn pairing.counterpart {id | graph.Reaches id last} {id | reference.Reaches id last} := by
  refine ⟨?_, ?_, ?_⟩
  · intro id reaches
    exact (paired.cones (paired.covers wf agrees reaches)).2
  · intro first firstReaches second secondReaches same
    have here := paired.inverse.mp (paired.covers wf agrees firstReaches)
    rw [same, paired.inverse.mp (paired.covers wf agrees secondReaches)] at here
    exact (Option.some.inj here).symm
  · intro counterpart reaches
    obtain ⟨id, known⟩ := paired.covers_reference referenceWf agrees reaches
    exact ⟨id, (paired.cones known).1, counterpart_eq known⟩

/-- The finished pairing is the isomorphism. -/
theorem Paired.isomorphism (paired : Paired graph reference last pairing) (wf : graph.WellFormed)
    (referenceWf : reference.WellFormed) (agrees : Agrees graph reference options pairing) :
    ConeIsomorphism graph reference last options pairing.counterpart := by
  have agree {id : NodeId} (reaches : graph.Reaches id last) :
      Matches graph reference options pairing id (pairing.counterpart id) := agrees (paired.covers wf agrees reaches)
  refine ⟨paired.bijective wf referenceWf agrees, counterpart_eq paired.start, ?_, ?_, ?_, ?_⟩
  · exact fun reaches => (agree reaches).nodes
  · intro id reaches
    rw [← wf.length_outgoing, ← referenceWf.length_outgoing]
    exact (agree reaches).consumers
  · exact fun reaches => (agree reaches).inputs
  · intro id index source reaches fed
    have connected := wf.isSome_producer?.mp (Option.isSome_iff_exists.mpr ⟨source, fed⟩)
    obtain ⟨source', expected, fed', expectedFed, ports, matched⟩ := (agree reaches).producers index connected
    rw [fed] at fed'
    cases fed'
    rw [counterpart_eq matched, expectedFed, ports]

/-! ## No difference is spurious -/

variable {counterpart : NodeId → NodeId}

/-- All that the walk has met so far lies on a given map, and nothing was reported. -/
structure Follows (graph : Graph) (last : NodeId) (counterpart : NodeId → NodeId) (pairing : Pairing) : Prop where
  silent : pairing.differences = []
  forward : ∀ {id other : NodeId}, pairing.forward[id]? = some other → graph.Reaches id last ∧ counterpart id = other
  backward : ∀ {id other : NodeId}, pairing.backward[other]? = some id → graph.Reaches id last ∧ counterpart id = other
  waiting : ∀ {id other}, (id, other) ∈ pairing.waiting → graph.Reaches id last ∧ counterpart id = other

theorem Follows.insert (follows : Follows graph last counterpart pairing) {id : NodeId}
    (reaches : graph.Reaches id last) : Follows graph last counterpart (pairing.insert id (counterpart id)) := by
  constructor
  · exact follows.silent
  · intro other match' known
    rw [forward_insert] at known
    split at known
    next same =>
      cases known
      exact ⟨same ▸ reaches, same ▸ rfl⟩
    next => exact follows.forward known
  · intro other match' known
    rw [backward_insert] at known
    split at known
    next same =>
      cases known
      exact ⟨reaches, same⟩
    next => exact follows.backward known
  · intro other match' member
    rcases List.mem_append.mp member with waits | new
    · exact follows.waiting waits
    · cases List.mem_singleton.mp new
      exact ⟨reaches, rfl⟩

theorem Follows.pair (iso : ConeIsomorphism graph reference last options counterpart)
    (follows : Follows graph last counterpart pairing) {id : NodeId} (reaches : graph.Reaches id last) :
    Follows graph last counterpart (pairing.pair id (counterpart id)) := by
  have matched {other : NodeId} (known : pairing.backward[counterpart id]? = some other) : other = id := by
    obtain ⟨otherReaches, same⟩ := follows.backward known
    exact iso.bijective.injOn otherReaches reaches same
  unfold Pairing.pair
  split
  next => exact follows.insert reaches
  next paired _ known =>
    obtain ⟨_, same⟩ := follows.forward known
    rw [if_neg (not_not.mpr same.symm)]
    split
    next other found =>
      rw [if_neg (not_not.mpr (matched found))]
      exact follows
    next => exact follows
  next other _ found =>
    rw [if_neg (not_not.mpr (matched found))]
    exact follows

theorem Follows.meetInput (wf : graph.WellFormed) (iso : ConeIsomorphism graph reference last options counterpart)
    (follows : Follows graph last counterpart pairing) {id : NodeId} (reaches : graph.Reaches id last)
    (index : UInt64) :
    Follows graph last counterpart (pairing.meetInput graph reference id (counterpart id) index) := by
  unfold Pairing.meetInput
  split
  next source expected found known =>
    rw [iso.producers reaches found] at known
    cases known
    rw [if_pos rfl]
    exact follows.pair iso (.head (wf.feeds_of_producer? found) reaches)
  next => exact follows

theorem Follows.meetInputs (wf : graph.WellFormed) (iso : ConeIsomorphism graph reference last options counterpart)
    {id : NodeId} (reaches : graph.Reaches id last) (indices : List UInt64)
    (follows : Follows graph last counterpart pairing) :
    Follows graph last counterpart (indices.foldl (Pairing.meetInput graph reference id (counterpart id)) pairing) := by
  induction indices generalizing pairing with
  | nil => exact follows
  | cons index indices ih => exact ih (follows.meetInput wf iso reaches index)

theorem Follows.meet (wf : graph.WellFormed) (referenceWf : reference.WellFormed)
    (iso : ConeIsomorphism graph reference last options counterpart) (follows : Follows graph last counterpart pairing)
    {id : NodeId} (reaches : graph.Reaches id last) :
    Follows graph last counterpart (pairing.meet graph reference options id (counterpart id)) := by
  obtain ⟨node, expected, found, known, agree⟩ := iso.nodes reaches
  have same : aspects graph reference options node expected = [] := by
    rw [aspects_eq_nil, wf.node_id found, referenceWf.node_id known, wf.length_outgoing, referenceWf.length_outgoing]
    exact ⟨agree, iso.consumers reaches, iso.inputs reaches⟩
  have unchanged : pairing.report [] = pairing := by rw [Pairing.report, List.append_nil]
  simp only [Pairing.meet, found, known, same, List.map_nil, unchanged, if_pos (iso.inputs reaches)]
  exact follows.meetInputs wf iso reaches (graph.connectedInputs id)

theorem Follows.walk (wf : graph.WellFormed) (referenceWf : reference.WellFormed)
    (iso : ConeIsomorphism graph reference last options counterpart) (pairs : Nat)
    (follows : Follows graph last counterpart pairing) :
    Follows graph last counterpart (pairing.walk graph reference options pairs) := by
  induction pairs generalizing pairing with
  | zero => exact follows
  | succ pairs ih =>
    rw [Pairing.walk]
    split
    next => exact follows
    next id other waiting queued =>
      obtain ⟨reaches, same⟩ := follows.waiting (queued ▸ List.mem_cons_self)
      subst same
      let rest : Pairing := { pairing with waiting }
      have kept : Follows graph last counterpart rest :=
        ⟨follows.silent, follows.forward, follows.backward,
          fun member => follows.waiting (queued ▸ List.mem_cons_of_mem _ member)⟩
      exact ih (kept.meet wf referenceWf iso reaches)

/-! ## The start -/

theorem paired_start (graph reference : Graph) (last : NodeId) : Paired graph reference last (start last) := by
  constructor
  · intro id counterpart
    rw [forward_start, backward_start]
  · rw [forward_start]
    exact ⟨rfl, rfl⟩
  · intro id counterpart known
    obtain ⟨first, second⟩ := forward_start.mp known
    subst first second
    exact ⟨.refl, .refl⟩
  · intro id counterpart member
    cases List.mem_singleton.mp member
    rw [forward_start]
    exact ⟨rfl, rfl⟩

theorem settled_start (graph reference : Graph) (last : NodeId) (options : CompareOptions) :
    Settled graph reference options (start last) := by
  intro id counterpart known arrived
  obtain ⟨first, second⟩ := forward_start.mp known
  subst first second
  exact absurd (List.mem_singleton_self _) arrived

theorem follows_start (iso : ConeIsomorphism graph reference last options counterpart) :
    Follows graph last counterpart (start last) := by
  constructor
  · rfl
  · intro id other known
    obtain ⟨first, second⟩ := forward_start.mp known
    subst first second
    exact ⟨.refl, iso.fixes⟩
  · intro id other known
    obtain ⟨first, second⟩ := backward_start.mp known
    subst first second
    exact ⟨.refl, iso.fixes⟩
  · intro id other member
    cases List.mem_singleton.mp member
    exact ⟨.refl, iso.fixes⟩

/-- The walk from the start is silent exactly where there is an isomorphism to follow. -/
theorem walk_silent_iff (wf : graph.WellFormed) (referenceWf : reference.WellFormed) (present : graph.hasNode last)
    (expectedPresent : reference.hasNode last) :
    ((start last).walk graph reference options (graph.edgeCount + 1)).differences = [] ↔
      ∃ counterpart, ConeIsomorphism graph reference last options counterpart := by
  constructor
  · intro silent
    obtain ⟨paired, settled⟩ := (paired_start graph reference last).walk wf referenceWf present expectedPresent
      (settled_start graph reference last options) silent
    have finished := walk_terminates graph reference last options
    exact ⟨_, paired.isomorphism wf referenceWf (settled.agrees finished)⟩
  · intro ⟨counterpart, iso⟩
    exact ((follows_start iso).walk wf referenceWf iso (graph.edgeCount + 1)).silent

end Pairing

theorem differences_eq_nil {graph reference : Graph} {last : NodeId} {options : CompareOptions} :
    graph.differences reference last options = [] ↔ graph.hasNode last ∧ reference.hasNode last ∧
      ((Pairing.start last).walk graph reference options (graph.edgeCount + 1)).differences = [] := by
  unfold differences
  by_cases present : graph.hasNode last <;> by_cases expected : reference.hasNode last <;> simp [present, expected]

/-- The walk ends on any two graphs. On well-formed ones it decides whether what the last node can see of
one graph, backwards along the edges, is isomorphic to what it can see of the other. -/
theorem differences_decide_isomorphism (graph reference : Graph) (last : NodeId) (options : CompareOptions) :
    ((Pairing.start last).walk graph reference options (graph.edgeCount + 1)).waiting = [] ∧
      (graph.WellFormed → reference.WellFormed →
        (graph.differences reference last options = [] ↔ graph.hasNode last ∧ reference.hasNode last ∧
          ∃ counterpart, ConeIsomorphism graph reference last options counterpart)) := by
  refine ⟨Pairing.walk_terminates graph reference last options, fun wf referenceWf => ?_⟩
  rw [differences_eq_nil]
  constructor
  · intro ⟨present, expected, silent⟩
    exact ⟨present, expected, (Pairing.walk_silent_iff wf referenceWf present expected).mp silent⟩
  · intro ⟨present, expected, isomorphic⟩
    exact ⟨present, expected, (Pairing.walk_silent_iff wf referenceWf present expected).mpr isomorphic⟩

/-- Nodes that feed each other in a circle, the first of which also feeds a result. -/
def circle (ids : List NodeId) : Graph :=
  let nodes := ids.map fun id => .addNode { id, kind := .squeeze }
  let edges := (ids.zip (ids.rotate 1)).map fun (producer, consumer) => .connect ⟨producer, 0⟩ ⟨consumer, 0⟩
  Graph.empty.history (.addNode (.result "z") :: nodes ++ edges ++ [.connect ⟨ids.headD "z", 0⟩ ⟨"z", 0⟩])

/-- Two circles of one length are isomorphic whatever their ids are; circles of two lengths are not. -/
theorem differences_decide_isomorphism_circle :
    (∃ counterpart, ConeIsomorphism (circle ["a", "b"]) (circle ["q", "p"]) "z" {} counterpart) ∧
      ¬ ∃ counterpart, ConeIsomorphism (circle ["a", "b"]) (circle ["a", "b", "c"]) "z" {} counterpart := by
  have wf (ids : List NodeId) : (circle ids).WellFormed := wellFormed_empty.history _
  have evaluated : (circle ["a", "b"]).hasNode "z" ∧ (circle ["a", "b", "c"]).hasNode "z" ∧
      (circle ["a", "b"]).differences (circle ["q", "p"]) "z" {} = [] ∧
      (circle ["a", "b"]).differences (circle ["a", "b", "c"]) "z" {} ≠ [] := by decide +kernel
  obtain ⟨present, expected, same, different⟩ := evaluated
  constructor
  · obtain ⟨_, decides⟩ := differences_decide_isomorphism (circle ["a", "b"]) (circle ["q", "p"]) "z" {}
    obtain ⟨_, _, isomorphic⟩ := (decides (wf _) (wf _)).mp same
    exact isomorphic
  · obtain ⟨_, decides⟩ := differences_decide_isomorphism (circle ["a", "b"]) (circle ["a", "b", "c"]) "z" {}
    intro isomorphic
    exact different ((decides (wf _) (wf _)).mpr ⟨present, expected, isomorphic⟩)

end OpGraph.Graph
