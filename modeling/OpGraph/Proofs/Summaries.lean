import Mathlib.Algebra.BigOperators.Group.Finset.Basic
import Mathlib.Algebra.Order.BigOperators.Group.Finset
import Mathlib.Algebra.Ring.Nat
import OpGraph.Graph.Summary
import OpGraph.Proofs.Queries

/-! What the summary of a graph counts. It counts under the texts of kinds, so the numbers are those of the kinds
exactly in the graphs where no two kinds have one text, and a kind that is given by name can have the text of a known
one. -/

namespace OpGraph

/-! ## Counting under texts -/

theorem countP_eq_countP_iff {α : Type} {items : List α} {first second : α → Bool}
    (implies : ∀ item ∈ items, second item → first item) :
    items.countP first = items.countP second ↔ ∀ item ∈ items, first item → second item := by
  have both : items.countP (fun item => first item && second item) = items.countP second := by
    apply List.countP_congr
    intro item member
    simpa using implies item member
  rw [List.countP_eq_countP_filter_add items first second, List.countP_filter, List.countP_filter, both,
    Nat.add_eq_left, List.countP_eq_zero]
  simp

section
variable {texts : List String} {text : String}

def tally (texts : List String) : Std.ExtTreeMap String Nat :=
  texts.foldl (fun counts text => counts.alter text fun count => some (count.getD 0 + 1)) ∅

theorem getElem?_foldl_alter (counts : Std.ExtTreeMap String Nat) :
    (texts.foldl (fun counts text => counts.alter text fun count => some (count.getD 0 + 1)) counts)[text]? =
      if text ∈ texts then some (counts[text]?.getD 0 + texts.count text) else counts[text]? := by
  induction texts generalizing counts with
  | nil => rfl
  | cons first texts ih =>
    rw [List.foldl_cons, ih]
    simp only [Std.ExtTreeMap.getElem?_alter, Std.LawfulEqCmp.compare_eq_iff_eq]
    grind

theorem getElem?_tally : (tally texts)[text]? = if text ∈ texts then some (texts.count text) else none := by
  rw [tally, getElem?_foldl_alter]
  simp

theorem perm_keys_tally : (tally texts).keys.Perm texts.dedup := by
  apply (List.perm_ext_iff_of_nodup Std.ExtTreeMap.nodup_keys (List.nodup_dedup texts)).mpr
  intro text
  rw [Std.ExtTreeMap.mem_keys, Std.ExtTreeMap.mem_iff_isSome_getElem?, getElem?_tally, List.mem_dedup]
  split <;> simp [*]

theorem sum_tally : ((tally texts).toList.map Prod.snd).sum = texts.length := by
  have entries : (tally texts).toList.map Prod.snd = (tally texts).keys.map texts.count := by
    rw [← Std.ExtTreeMap.map_fst_toList_eq_keys, List.map_map]
    apply List.map_congr_left
    rintro ⟨text, count⟩ member
    have found := Std.ExtTreeMap.mem_toList_iff_getElem?_eq_some.mp member
    rw [getElem?_tally, Option.ite_none_right_eq_some] at found
    exact (Option.some.inj found.2).symm
  rw [entries, (perm_keys_tally.map texts.count).sum_eq, List.sum_map_count_dedup_eq_length]

end

/-! ## The texts of kinds -/

namespace NodeKind

/-- Only a kind given by name can have the text of another one, and that is a known one. -/
theorem display_eq_iff {first second : NodeKind} : first.display = second.display ↔ first = second ∨
    ∃ kind ∈ known, first = kind ∧ second = .other kind.display ∨ first = .other kind.display ∧ second = kind := by
  cases first <;> cases second <;> simp [display, known, eq_comm]

end NodeKind

namespace Graph

variable {graph : Graph}

def kinds (graph : Graph) : List NodeKind := graph.nodeList.map Node.kind

def recorded (graph : Graph) (kind : NodeKind) : Nat := graph.summary.kinds[kind.display]?.getD 0

/-- No known kind is there together with a kind that has its text. -/
def TellsKindsApart (graph : Graph) : Prop :=
  ∀ kind ∈ NodeKind.known, graph.nodesOfKind kind = [] ∨ graph.nodesOfKind (.other kind.display) = []

theorem kinds_summary (graph : Graph) : graph.summary.kinds = tally (graph.kinds.map NodeKind.display) := by
  rw [kinds, tally, List.foldl_map, List.foldl_map]
  rfl

theorem recorded_eq (graph : Graph) (kind : NodeKind) :
    graph.recorded kind = graph.kinds.countP fun other => other.display == kind.display := by
  have count : (graph.kinds.map NodeKind.display).count kind.display =
      graph.kinds.countP fun other => other.display == kind.display := List.countP_map
  rw [recorded, kinds_summary, getElem?_tally, ← count]
  split
  · rfl
  next absent => exact (List.count_eq_zero.mpr absent).symm

theorem length_nodesOfKind (graph : Graph) (kind : NodeKind) :
    (graph.nodesOfKind kind).length = graph.kinds.count kind := by
  rw [nodesOfKind, ← List.countP_eq_length_filter, kinds, List.count, List.countP_map]
  rfl

theorem nodesOfKind_eq_nil_iff {kind : NodeKind} : graph.nodesOfKind kind = [] ↔ kind ∉ graph.kinds := by
  rw [← List.length_eq_zero_iff, length_nodesOfKind, List.count_eq_zero]

theorem length_le_recorded (graph : Graph) (kind : NodeKind) :
    (graph.nodesOfKind kind).length ≤ graph.recorded kind := by
  rw [recorded_eq, length_nodesOfKind]
  apply List.countP_mono_left
  intro other _ same
  exact beq_iff_eq.mpr (congrArg NodeKind.display (beq_iff_eq.mp same))

/-- A number is that of the kind if no other kind has its text. -/
theorem recorded_eq_length_iff {kind : NodeKind} : graph.recorded kind = (graph.nodesOfKind kind).length ↔
    ∀ other ∈ graph.kinds, other.display = kind.display → other = kind := by
  rw [recorded_eq, length_nodesOfKind, List.count, countP_eq_countP_iff]
  · simp only [beq_iff_eq]
  · intro other _ same
    exact beq_iff_eq.mpr (congrArg NodeKind.display (beq_iff_eq.mp same))

theorem TellsKindsApart.recorded_eq (apart : graph.TellsKindsApart) {kind : NodeKind} (member : kind ∈ graph.kinds) :
    graph.recorded kind = (graph.nodesOfKind kind).length := by
  simp only [TellsKindsApart, nodesOfKind_eq_nil_iff] at apart
  apply recorded_eq_length_iff.mpr
  intro other listed alike
  rcases NodeKind.display_eq_iff.mp alike with same | ⟨known, isKnown, ⟨rfl, rfl⟩ | ⟨rfl, rfl⟩⟩
  · exact same
  · exact ((apart _ isKnown).elim (· listed) (· member)).elim
  · exact ((apart _ isKnown).elim (· member) (· listed)).elim

/-- It is enough to look at the kinds that are given by name. -/
theorem tellsKindsApart_of_pending
    (each : ∀ kind ∈ graph.kinds, ¬ kind.isIrOp → graph.recorded kind = (graph.nodesOfKind kind).length) :
    graph.TellsKindsApart := by
  intro kind isKnown
  simp only [nodesOfKind_eq_nil_iff]
  by_contra both
  obtain ⟨listed, named⟩ := not_or.mp both
  have same :=
    recorded_eq_length_iff.mp (each _ (not_not.mp named) (by simp [NodeKind.isIrOp])) kind (not_not.mp listed) rfl
  rw [same] at isKnown
  simp [NodeKind.known] at isKnown

theorem length_pending (graph : Graph) :
    graph.summary.pending.length = graph.kinds.countP fun kind => !kind.isIrOp := by
  rw [kinds, List.countP_map, List.countP_eq_length_filter, summary, List.length_map]
  rfl

/-- The numbers of the kinds that await the front phase add up to the number of nodes that do, if they are those of
the kinds. -/
theorem sum_recorded_iff : ∑ kind ∈ graph.kinds.toFinset with ¬ kind.isIrOp,
    graph.recorded kind = graph.summary.pending.length ↔
    ∀ kind ∈ graph.kinds, ¬ kind.isIrOp → graph.recorded kind = (graph.nodesOfKind kind).length := by
  have total : graph.summary.pending.length =
      ∑ kind ∈ graph.kinds.toFinset with ¬ kind.isIrOp, (graph.nodesOfKind kind).length := by
    simp only [length_nodesOfKind]
    rw [Finset.sum_filter_count_eq_countP, length_pending]
    simp
  rw [total, eq_comm, Finset.sum_eq_sum_iff_of_le fun kind _ => graph.length_le_recorded kind]
  simp only [Finset.mem_filter, List.mem_toFinset, and_imp]
  exact forall₃_congr fun _ _ _ => eq_comm

theorem mem_kinds_summary (graph : Graph) (text : String) :
    text ∈ graph.summary.kinds ↔ ∃ node ∈ graph.nodeList, node.kind.display = text := by
  rw [Std.ExtTreeMap.mem_iff_isSome_getElem?, kinds_summary, getElem?_tally, kinds, List.map_map]
  split <;> simp_all

theorem sum_kinds_summary (graph : Graph) : (graph.summary.kinds.toList.map Prod.snd).sum = graph.nodeCount := by
  rw [kinds_summary, sum_tally, List.length_map, kinds, List.length_map, nodeList, List.length_map]
  exact Std.ExtTreeMap.length_toList

namespace WellFormed

theorem pending_ascending (wf : graph.WellFormed) : graph.summary.pending.Pairwise (· < ·) :=
  List.pairwise_map.mpr (wf.nodeList_ascending.filter _)

theorem mem_pending (wf : graph.WellFormed) {id : NodeId} :
    id ∈ graph.summary.pending ↔ ∃ node, graph.node? id = some node ∧ ¬ node.kind.isIrOp := by
  simp only [summary, List.mem_map, List.mem_filter, wf.mem_nodeList]
  constructor
  · rintro ⟨node, ⟨stored, pending⟩, rfl⟩
    exact ⟨node, stored, by simpa using pending⟩
  · rintro ⟨node, stored, pending⟩
    have own := wf.node_id stored
    exact ⟨node, ⟨own.symm ▸ stored, by simpa using pending⟩, own⟩

/-- The number under each text is that of the nodes with it, and what awaits the front phase is listed. The numbers
are those of the kinds exactly if no known kind is there together with one given by its name. -/
theorem summary_counts (wf : graph.WellFormed) :
    (∀ text, text ∈ graph.summary.kinds ↔ ∃ node ∈ graph.nodeList, node.kind.display = text) ∧
    (∀ kind, graph.recorded kind = graph.nodeList.countP fun node => node.kind.display == kind.display) ∧
    (graph.summary.kinds.toList.map Prod.snd).sum = graph.nodeCount ∧
    graph.summary.pending.Pairwise (· < ·) ∧
    (∀ id, id ∈ graph.summary.pending ↔ ∃ node, graph.node? id = some node ∧ ¬ node.kind.isIrOp) ∧
    ((∀ node ∈ graph.nodeList, graph.recorded node.kind = (graph.nodesOfKind node.kind).length) ↔
      graph.TellsKindsApart) ∧
    (∑ kind ∈ graph.kinds.toFinset with ¬ kind.isIrOp, graph.recorded kind = graph.summary.pending.length ↔
      graph.TellsKindsApart) := by
  refine ⟨graph.mem_kinds_summary, ?_, graph.sum_kinds_summary, wf.pending_ascending, fun _ => wf.mem_pending, ?_, ?_⟩
  · intro kind
    rw [recorded_eq, kinds, List.countP_map]
    rfl
  · constructor
    · intro each
      apply tellsKindsApart_of_pending
      intro kind listed _
      obtain ⟨node, member, rfl⟩ := List.mem_map.mp listed
      exact each node member
    · intro apart node member
      exact apart.recorded_eq (List.mem_map_of_mem member)
  · rw [sum_recorded_iff]
    exact ⟨tellsKindsApart_of_pending, fun apart kind listed _ => apart.recorded_eq listed⟩

/-- A parameter beside a node of an unknown kind that is called so. -/
theorem summary_counts_parameter :
    let graph := (empty.withNode (.parameter "p" none)).withNode { id := "q", kind := .other "Parameter" }
    graph.WellFormed ∧ graph.recorded .parameter = 2 ∧ (graph.nodesOfKind .parameter).length = 1 ∧
      (graph.summary.kinds.toList.map Prod.snd).sum = 2 ∧ graph.summary.pending = ["q"] ∧ ¬ graph.TellsKindsApart ∧
      ∑ kind ∈ graph.kinds.toFinset with ¬ kind.isIrOp, graph.recorded kind ≠ graph.summary.pending.length := by
  intro graph
  have wf : graph.WellFormed := (wellFormed_empty.withNode (by decide)).withNode (by decide)
  obtain ⟨_, recorded, total, _, _, _, sum⟩ := wf.summary_counts
  have together : ¬ graph.TellsKindsApart := by
    intro apart
    have := apart .parameter (by decide)
    revert this
    decide +kernel
  refine ⟨wf, (recorded .parameter).trans (by decide +kernel), by decide +kernel, total.trans (by decide +kernel),
    by decide +kernel, together, mt sum.mp together⟩

end WellFormed
end Graph
end OpGraph
