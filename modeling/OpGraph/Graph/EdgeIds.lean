import OpGraph.Graph.Basic

/-!
Where the ids of new edges come from. All that is known of a supply is that it gives ids which the
graph does not use yet; which ones is left to it.
-/

namespace OpGraph

class EdgeIdSupply where
  next : Graph → EdgeId
  edge?_next (graph : Graph) : graph.edge? (next graph) = none

namespace Graph

def unusedEdgeId [EdgeIdSupply] (graph : Graph) : EdgeId := EdgeIdSupply.next graph

theorem edge?_unusedEdgeId [EdgeIdSupply] (graph : Graph) : graph.edge? graph.unusedEdgeId = none :=
  EdgeIdSupply.edge?_next graph

end Graph

/-! ## The supply of the program -/

namespace EdgeId

/-- The least number from `start` on that is not among the given ones, which ascend. -/
def firstGap (start : Nat) : (used : List EdgeId) → Nat
  | [] => start
  | id :: used => firstGap (if id.value = start then start + 1 else start) used

theorem le_firstGap (used : List EdgeId) (start : Nat) : start ≤ firstGap start used := by
  induction used generalizing start with
  | nil => exact Nat.le_refl _
  | cons id used ih =>
    refine Nat.le_trans ?_ (ih _)
    split <;> omega

theorem firstGap_of_lt {used : List EdgeId} {start : Nat} (above : ∀ id ∈ used, start < id.value) :
    firstGap start used = start := by
  induction used with
  | nil => rfl
  | cons id used ih =>
    have here := above id (by simp)
    rw [firstGap, if_neg (by omega)]
    exact ih fun other member => above other (by simp [member])

theorem firstGap_not_mem {used : List EdgeId}
    (ascending : used.Pairwise fun first second => first.value < second.value) (start : Nat) :
    ⟨firstGap start used⟩ ∉ used := by
  induction used generalizing start with
  | nil => simp
  | cons id used ih =>
    obtain ⟨below, rest⟩ := List.pairwise_cons.mp ascending
    rw [List.mem_cons, not_or]
    refine ⟨?_, ih rest _⟩
    intro same
    have value : firstGap (if id.value = start then start + 1 else start) used = id.value :=
      congrArg EdgeId.value same
    split at value
    next equal =>
      have least := le_firstGap used (start + 1)
      omega
    next different =>
      by_cases later : start < id.value
      · rw [firstGap_of_lt fun other member => Nat.lt_trans later (below other member)] at value
        omega
      · have least := le_firstGap used start
        omega

/-- Where the search starts. -/
def freshStart : Nat := 0x8b1f6a0e5d734c2f9a4e17c36b52d80f

end EdgeId

open Std (ExtTreeMap)

instance EdgeIdSupply.gaps : EdgeIdSupply where
  next graph := ⟨EdgeId.firstGap EdgeId.freshStart graph.edges.keys⟩
  edge?_next graph := by
    have ascending : graph.edges.keys.Pairwise fun first second => first.value < second.value := by
      apply ExtTreeMap.ordered_keys.imp
      intro first second less
      exact Nat.compare_eq_lt.mp less
    have absent := EdgeId.firstGap_not_mem ascending EdgeId.freshStart
    rw [ExtTreeMap.mem_keys] at absent
    exact ExtTreeMap.getElem?_eq_none absent

end OpGraph
