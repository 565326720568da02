import OpGraph.Proofs.CompactTexts
import OpGraph.Proofs.StoredParts

/-! The members of a graph in any order. A text may list its nodes and its edges as it likes: it has the same numbers
and the same length, and the tables that are made of it are the same. -/

namespace OpGraph

namespace Json

theorem mem_numbersOfMembers {members : List (String × Json)} {number : Number} :
    number ∈ numbersOfMembers members ↔ ∃ member ∈ members, number ∈ member.2.numbers := by
  induction members with
  | nil => simp [numbersOfMembers]
  | cons member members ih => simp [numbersOfMembers, ih]

theorem mem_numbers_object_perm {members others : List (String × Json)} (same : members.Perm others) (number : Number) :
    number ∈ (object members).numbers ↔ number ∈ (object others).numbers := by
  rw [numbers, numbers, mem_numbersOfMembers, mem_numbersOfMembers]
  simp only [same.mem_iff]

end Json

namespace Document

section Lengths

variable {α : Type} (text : α → Bytes) (closing : UInt8) {items others : List α}

theorem length_afterItem_perm (same : items.Perm others) (rest : Bytes) :
    (afterItem text closing items rest).length = (afterItem text closing others rest).length := by
  induction same with
  | nil => rfl
  | cons item _ ih => simp only [afterItem, List.length_cons, List.length_append, ih]
  | swap first second items =>
    simp only [afterItem, List.length_cons, List.length_append]
    omega
  | trans _ _ first second => exact first.trans second

theorem length_listText_perm (same : items.Perm others) (rest : Bytes) :
    (listText text closing items rest).length = (listText text closing others rest).length := by
  have lengths := length_afterItem_perm text closing same rest
  cases items with
  | nil => rw [List.nil_perm.mp same]
  | cons item items =>
    cases others with
    | nil => cases List.perm_nil.mp same
    | cons other others => exact Nat.succ.inj lengths

end Lengths

theorem length_object_perm {members others : List (String × Json)} (same : members.Perm others) :
    (Utf8.encode (Json.object members).compact).length = (Utf8.encode (Json.object others).compact).length := by
  have text (members : List (String × Json)) := congrArg List.length (encode_object members [])
  simp only [List.append_nil, List.length_cons] at text
  rw [text, text, length_listText_perm _ _ same]

end Document

namespace Graph

/-- The graph is written with its nodes and its edges in some order. -/
inductive Writes (graph : Graph) : Json → Prop where
  | listing {nodes : List (NodeId × Node)} {edges : List (EdgeId × Edge)} (sameNodes : nodes.Perm graph.nodes.toList)
      (sameEdges : edges.Perm graph.edges.toList) : Writes graph (listingJson nodes edges)

theorem writes_toJson (graph : Graph) : graph.Writes graph.toJson := .listing (.refl _) (.refl _)

namespace Writes

variable {graph : Graph} {json : Json}

theorem mem_numbers (writes : graph.Writes json) (number : Number) :
    number ∈ json.numbers ↔ number ∈ graph.toJson.numbers := by
  obtain ⟨sameNodes, sameEdges⟩ := writes
  have nodes := Json.mem_numbers_object_perm (sameNodes.map nodeMember) number
  have edges := Json.mem_numbers_object_perm (sameEdges.map edgeMember) number
  simp only [toJson, listingJson, Json.numbers, Json.numbersOfMembers, List.mem_append] at nodes edges ⊢
  rw [nodes, edges]

theorem length_compact (writes : graph.Writes json) :
    (Utf8.encode json.compact).length = (Utf8.encode graph.toJson.compact).length := by
  obtain ⟨sameNodes, sameEdges⟩ := writes
  have nodes := Document.length_object_perm (sameNodes.map nodeMember)
  have edges := Document.length_object_perm (sameEdges.map edgeMember)
  have text (first second : Json) :=
    congrArg List.length (Document.encode_object [("nodes", first), ("edges", second)] [])
  simp only [Document.listText, Document.afterItem, Document.encode_member, List.append_nil, List.length_cons,
    List.length_append] at text
  rw [toJson, listingJson, listingJson, text, text, nodes, edges]

end Writes

end Graph
end OpGraph
