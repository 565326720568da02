import OpGraph.Proofs.Adjacency
import Std.Data.String.ToNat
import Mathlib.Data.List.Nodup

/-! The search for an unused id of a node ends at one. It takes the first unused one of a row of candidates, which are
distinct whatever the ids in the graph look like, so that one more of them than there are nodes cannot all be used. -/

namespace OpGraph

namespace Graph
open Std (ExtTreeMap)

theorem numberedId_injective (stem : String) : Function.Injective (numberedId stem) := by
  intro first second same
  simp only [numberedId, toString] at same
  exact Nat.repr_injective (String.append_right_inj _ |>.mp same)

theorem numberedId_ne (stem : String) (number : Nat) : numberedId stem number ≠ stem := by
  intro same
  have lengths := congrArg String.length same
  simp only [numberedId, toString, String.length_append] at lengths
  have separator : "_".length = 1 := rfl
  omega

/-- The ids that are tried for a node: the stem, and then the stem with each number in turn. -/
def candidate (stem : String) : Nat → NodeId
  | 0 => stem
  | number + 1 => numberedId stem (number + 1)

theorem candidate_of_pos {stem : String} {number : Nat} (positive : 0 < number) :
    candidate stem number = numberedId stem number := by
  obtain ⟨before, rfl⟩ := Nat.exists_eq_add_of_le' positive
  rfl

theorem candidate_injective (stem : String) : Function.Injective (candidate stem) := by
  intro first second same
  cases first with
  | zero =>
    cases second with
    | zero => rfl
    | succ second => exact absurd same.symm (numberedId_ne stem _)
  | succ first =>
    cases second with
    | zero => exact absurd same (numberedId_ne stem _)
    | succ second => exact numberedId_injective stem same

/-- One candidate more than there are nodes cannot all be used. -/
theorem exists_unused_candidate (graph : Graph) (stem : String) :
    ∃ number ≤ graph.nodeCount, ¬ graph.hasNode (candidate stem number) := by
  by_contra used
  push Not at used
  have distinct : ((List.range (graph.nodeCount + 1)).map (candidate stem)).Nodup :=
    List.nodup_range.map (candidate_injective stem)
  have covered : (List.range (graph.nodeCount + 1)).map (candidate stem) ⊆ graph.nodes.keys := by
    intro id member
    obtain ⟨number, range, rfl⟩ := List.mem_map.mp member
    exact ExtTreeMap.mem_keys.mpr
      (ExtTreeMap.contains_iff_mem.mp (used number (Nat.le_of_lt_succ (List.mem_range.mp range))))
  have size := distinct.length_le_of_subset covered
  rw [List.length_map, List.length_range, ExtTreeMap.length_keys] at size
  exact Nat.not_succ_le_self _ size

/-- The search from a candidate on, with no bound on the tries, ends after so many of them at an unused id. -/
inductive SettlesOn (graph : Graph) (stem : String) : (number tries : Nat) → (id : NodeId) → Prop
  | free {number} (unused : ¬ graph.hasNode (candidate stem number)) :
      SettlesOn graph stem number 1 (candidate stem number)
  | next {number tries id} (used : graph.hasNode (candidate stem number))
      (rest : SettlesOn graph stem (number + 1) tries id) : SettlesOn graph stem number (tries + 1) id

namespace SettlesOn

variable {graph : Graph} {stem : String} {number tries : Nat} {id : NodeId}

/-- The last candidate that is tried is the first one that is unused. -/
theorem first_unused (settles : graph.SettlesOn stem number tries id) : ∃ found, found + 1 = number + tries ∧
    id = candidate stem found ∧ ¬ graph.hasNode (candidate stem found) ∧
    ∀ earlier, number ≤ earlier → earlier < found → graph.hasNode (candidate stem earlier) := by
  induction settles with
  | @free number unused =>
    exact ⟨number, rfl, rfl, unused, fun earlier least before => absurd least (Nat.not_le_of_lt before)⟩
  | @next number tries id used _ ih =>
    obtain ⟨found, last, same, unused, below⟩ := ih
    refine ⟨found, by omega, same, unused, ?_⟩
    intro earlier least before
    rcases Nat.eq_or_lt_of_le least with here | later
    · exact here ▸ used
    · exact below earlier later before

theorem exists_of_unused {distance : Nat} (unused : ¬ graph.hasNode (candidate stem (number + distance))) :
    ∃ tries ≤ distance + 1, ∃ id, graph.SettlesOn stem number tries id := by
  induction distance generalizing number with
  | zero => exact ⟨1, Nat.le_refl 1, _, .free unused⟩
  | succ distance ih =>
    by_cases used : graph.hasNode (candidate stem number)
    · rw [← Nat.add_assoc, Nat.add_right_comm] at unused
      obtain ⟨tries, most, id, settles⟩ := ih unused
      exact ⟨tries + 1, Nat.succ_le_succ most, id, .next used settles⟩
    · exact ⟨1, by omega, _, .free used⟩

/-- As many attempts as tries are enough. -/
theorem firstUnused_eq (settles : graph.SettlesOn stem number tries id) (positive : 0 < number) {attempts : Nat}
    (enough : tries ≤ attempts) : graph.firstUnused stem attempts number = id := by
  induction settles generalizing attempts with
  | free unused =>
    rw [candidate_of_pos positive] at unused ⊢
    obtain ⟨attempts, rfl⟩ := Nat.exists_eq_add_of_le' enough
    rw [firstUnused, if_neg unused]
  | next used _ ih =>
    rw [candidate_of_pos positive] at used
    obtain ⟨attempts, rfl⟩ := Nat.exists_eq_add_of_le' enough
    rw [← Nat.add_assoc, firstUnused, if_pos used]
    exact ih (Nat.succ_pos _) (Nat.le_add_left _ _)

theorem uniqueId_eq (settles : graph.SettlesOn stem 0 tries id) (enough : tries ≤ graph.nodeCount + 1) :
    graph.uniqueId stem = id := by
  cases settles with
  | free unused => exact if_neg unused
  | next used rest =>
    have stemUsed : graph.hasNode stem := used
    rw [uniqueId, if_pos stemUsed]
    exact rest.firstUnused_eq Nat.one_pos (Nat.le_of_succ_le_succ enough)

end SettlesOn

theorem settlesOn_uniqueId (graph : Graph) (stem : String) :
    ∃ tries ≤ graph.nodeCount + 1, graph.SettlesOn stem 0 tries (graph.uniqueId stem) := by
  obtain ⟨number, most, unused⟩ := exists_unused_candidate graph stem
  rw [← Nat.zero_add number] at unused
  obtain ⟨tries, fewer, id, settles⟩ := SettlesOn.exists_of_unused unused
  have enough : tries ≤ graph.nodeCount + 1 := Nat.le_trans fewer (Nat.succ_le_succ most)
  exact ⟨tries, enough, settles.uniqueId_eq enough ▸ settles⟩

/-- The id is the first candidate that is unused, and its number is at most that of the nodes. -/
theorem uniqueId_eq_candidate (graph : Graph) (stem : String) : ∃ found ≤ graph.nodeCount,
    graph.uniqueId stem = candidate stem found ∧ ¬ graph.hasNode (candidate stem found) ∧
    ∀ earlier < found, graph.hasNode (candidate stem earlier) := by
  obtain ⟨tries, most, settles⟩ := settlesOn_uniqueId graph stem
  obtain ⟨found, last, same, unused, below⟩ := settles.first_unused
  exact ⟨found, by omega, same, unused, fun earlier => below earlier (Nat.zero_le _)⟩

theorem not_hasNode_uniqueId (graph : Graph) (stem : String) : ¬ graph.hasNode (graph.uniqueId stem) := by
  obtain ⟨found, _, same, unused, _⟩ := uniqueId_eq_candidate graph stem
  rwa [same]

/-- The search ends by itself, after one try more than there are nodes at the latest. It gives an id that no node has:
the stem, or where a node has that the stem with the least number, from one on, that makes it unused. -/
theorem uniqueId_is_first_unused (graph : Graph) (stem : String) :
    (∃ tries ≤ graph.nodeCount + 1, graph.SettlesOn stem 0 tries (graph.uniqueId stem)) ∧
    graph.node? (graph.uniqueId stem) = none ∧
    (graph.WellFormed → ∀ id node, graph.node? id = some node → node.id ≠ graph.uniqueId stem) ∧
    (¬ graph.hasNode stem → graph.uniqueId stem = stem) ∧
    (graph.hasNode stem → ∃ number, 1 ≤ number ∧ number ≤ graph.nodeCount ∧
      graph.uniqueId stem = numberedId stem number ∧ ¬ graph.hasNode (numberedId stem number) ∧
      ∀ earlier, 1 ≤ earlier → earlier < number → graph.hasNode (numberedId stem earlier)) := by
  have absent := graph.not_hasNode_uniqueId stem
  refine ⟨graph.settlesOn_uniqueId stem, ?_, ?_, fun stemUnused => if_neg stemUnused, ?_⟩
  · rwa [hasNode_eq_isSome, Option.not_isSome_iff_eq_none] at absent
  · intro wf id node stored same
    rw [← same, wf.node_id stored] at absent
    exact absent (hasNode_of_node? stored)
  · intro stemUsed
    obtain ⟨found, most, same, unused, below⟩ := graph.uniqueId_eq_candidate stem
    have positive : 0 < found := by
      rw [Nat.pos_iff_ne_zero]
      rintro rfl
      exact unused stemUsed
    rw [candidate_of_pos positive] at same unused
    refine ⟨found, positive, most, same, unused, ?_⟩
    intro earlier least before
    rw [← candidate_of_pos least]
    exact below earlier before

/-- Nodes with a stem and numbers of it, one of which is missing, and with ids that only look like such. -/
def crowded : Graph := ((((empty.withNode (.result "x")).withNode (.result "x_1")).withNode (.result "x_3")).withNode
  (.result "x_02")).withNode (.result "x_1_1")

/-- The missing number is found for the stem, and the same id is free as a stem of its own. -/
theorem uniqueId_is_first_unused_crowded : crowded.WellFormed ∧
    (∃ tries ≤ 6, crowded.SettlesOn "x" 0 tries "x_2") ∧ crowded.node? "x_2" = none ∧
    (∀ id node, crowded.node? id = some node → node.id ≠ "x_2") ∧ crowded.uniqueId "x_2" = "x_2" ∧
    ∃ number, 1 ≤ number ∧ number ≤ 5 ∧ "x_2" = numberedId "x" number ∧ ¬ crowded.hasNode (numberedId "x" number) ∧
      ∀ earlier, 1 ≤ earlier → earlier < number → crowded.hasNode (numberedId "x" earlier) := by
  have wf : crowded.WellFormed := ((((wellFormed_empty.withNode (by decide)).withNode (by decide)).withNode
    (by decide)).withNode (by decide)).withNode (by decide)
  have evaluated : crowded.uniqueId "x" = "x_2" ∧ crowded.hasNode "x" ∧ ¬ crowded.hasNode "x_2" := by decide +kernel
  obtain ⟨named, used, unused⟩ := evaluated
  obtain ⟨settles, absent, others, _, numbered⟩ := uniqueId_is_first_unused crowded "x"
  obtain ⟨_, _, _, itself, _⟩ := uniqueId_is_first_unused crowded "x_2"
  rw [named] at settles absent others
  simp only [named] at numbered
  exact ⟨wf, settles, absent, others wf, itself unused, numbered used⟩

end Graph
end OpGraph
