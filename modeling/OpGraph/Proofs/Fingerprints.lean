import OpGraph.Proofs.CompactTexts
import OpGraph.Proofs.Histories
import OpGraph.Proofs.MovedConnections
import OpGraph.Proofs.StoredParts

/-! Fingerprints identify structure. What a fingerprint covers is a text that erases edge ids and all order of
insertion, as nodes and connections are sorted, and nothing else: every part of a node is read off its JSON, and JSON
is read off its text. -/

namespace OpGraph

open Document

/-! ## JSON of nodes and ports -/

/-- What is written and can be read is told apart by its JSON. -/
theorem eq_of_toJson_eq {α : Type} {encode : α → Json} {read? : Document → Option α} {first second : α}
    (here : read? (ofJson (encode first)) = some first) (there : read? (ofJson (encode second)) = some second)
    (same : encode first = encode second) : first = second := by
  rw [same, there] at here
  exact (Option.some.inj here).symm

theorem eq_of_ofOption_eq {α : Type} {encode : α → Json} {read? : Document → Option α}
    (present : ∀ value, encode value ≠ .null) {first second : Option α}
    (here : ∀ found, first = some found → read? (ofJson (encode found)) = some found)
    (there : ∀ found, second = some found → read? (ofJson (encode found)) = some found)
    (same : Json.ofOption encode first = Json.ofOption encode second) : first = second := by
  have read := optional?_ofJson present here
  rw [same, optional?_ofJson present there] at read
  exact (Option.some.inj read).symm

theorem Port.toJson_injective {first second : Port} (same : first.toJson = second.toJson) : first = second :=
  eq_of_toJson_eq first.ofDocument?_ofJson second.ofDocument?_ofJson same

/-- Read with room for both, attributes are told apart. -/
theorem Attributes.toJson_injective {first second : Attributes} (same : first.toJson = second.toJson) :
    first = second :=
  eq_of_toJson_eq (Attributes.ofDocument?_ofJson (Nat.le_succ first.toJson.depth))
    (Attributes.ofDocument?_ofJson (same ▸ Nat.le_succ first.toJson.depth)) same

def Node.Finite (node : Node) : Prop := ∀ tensor ∈ node.value, tensor.data.Finite

instance (node : Node) : Decidable node.Finite :=
  inferInstanceAs (Decidable (∀ tensor ∈ node.value, tensor.data.Finite))

theorem Node.toJson_injective {first second : Node} (finite : first.Finite) (otherFinite : second.Finite)
    (same : first.toJson = second.toJson) : first = second := by
  simp only [Node.toJson, Json.object.injEq, List.cons.injEq, Prod.mk.injEq, true_and, and_true] at same
  obtain ⟨id, kind, name, outputType, value, shape, attributes⟩ := same
  have sameId : first.id = second.id := Json.string.inj id
  have sameKind : first.kind = second.kind :=
    eq_of_toJson_eq first.kind.ofDocument?_ofJson second.kind.ofDocument?_ofJson kind
  have sameName : first.name = second.name :=
    @eq_of_ofOption_eq _ _ toText? (fun _ => Json.noConfusion) _ _ (fun _ _ => rfl) (fun _ _ => rfl) name
  have sameType : first.outputType = second.outputType :=
    eq_of_ofOption_eq (fun _ => Json.noConfusion) (fun found _ => found.ofDocument?_ofJson)
      (fun found _ => found.ofDocument?_ofJson) outputType
  have sameValue : first.value = second.value :=
    eq_of_ofOption_eq (fun _ => Json.noConfusion) (fun found same => Tensor.ofDocument?_ofJson (finite found same))
      (fun found same => Tensor.ofDocument?_ofJson (otherFinite found same)) value
  have sameShape : first.shape = second.shape :=
    eq_of_ofOption_eq (fun _ => Json.noConfusion) (fun found _ => Shape.ofDocument?_ofJson found)
      (fun found _ => Shape.ofDocument?_ofJson found) shape
  have sameAttributes : first.attributes = second.attributes := Attributes.toJson_injective attributes
  cases first
  cases second
  simp_all

/-! ## Structure -/

theorem eq_of_map_eq {α β : Type} {encode : α → β} {first second : List α}
    (injective : ∀ here ∈ first, ∀ there ∈ second, encode here = encode there → here = there)
    (same : first.map encode = second.map encode) : first = second := by
  induction first generalizing second with
  | nil => exact (List.map_eq_nil_iff.mp same.symm).symm
  | cons here first ih =>
    obtain ⟨there, rest, rfl, head, tail⟩ := List.map_eq_cons_iff.mp same.symm
    have rests := ih (fun left member right other => injective left (.tail _ member) right (.tail _ other)) tail.symm
    rw [injective here List.mem_cons_self there List.mem_cons_self head.symm, rests]

namespace Graph
open Std (ExtTreeMap)

variable {first second : Graph}

def FiniteValues (graph : Graph) : Prop := ∀ node ∈ graph.nodeList, node.Finite

instance (graph : Graph) : Decidable graph.FiniteValues :=
  inferInstanceAs (Decidable (∀ node ∈ graph.nodeList, node.Finite))

theorem WellFormed.node?_of_nodeList_eq (wf : first.WellFormed) (otherWf : second.WellFormed)
    (same : first.nodeList = second.nodeList) {id : NodeId} {node : Node} (stored : first.node? id = some node) :
    second.node? id = some node := by
  have own := wf.node_id stored
  subst own
  exact otherWf.mem_nodeList.mp (same ▸ wf.mem_nodeList.mpr stored)

/-- A node is stored under its own id, so the list of nodes has lost nothing. -/
theorem WellFormed.nodes_eq (wf : first.WellFormed) (otherWf : second.WellFormed)
    (same : first.nodeList = second.nodeList) : first.nodes = second.nodes := by
  apply ExtTreeMap.ext_getElem?
  intro id
  exact Option.ext fun node => ⟨wf.node?_of_nodeList_eq otherWf same, otherWf.node?_of_nodeList_eq wf same.symm⟩

theorem structureJson_injective (finite : first.FiniteValues) (otherFinite : second.FiniteValues)
    (same : first.structureJson = second.structureJson) :
    first.nodeList = second.nodeList ∧ first.connections = second.connections := by
  simp only [structureJson, Json.array.injEq, List.cons.injEq, and_true] at same
  obtain ⟨nodes, connections⟩ := same
  constructor
  · exact eq_of_map_eq (fun here listed there listedThere =>
      Node.toJson_injective (finite here listed) (otherFinite there listedThere)) nodes
  · refine eq_of_map_eq ?_ connections
    rintro ⟨source, target⟩ _ ⟨otherSource, otherTarget⟩ _ links
    simp only [Json.array.injEq, List.cons.injEq, and_true] at links
    rw [Port.toJson_injective links.1, Port.toJson_injective links.2]

def structureText (graph : Graph) : Bytes := Utf8.encode graph.structureJson.compact

theorem SameStructure.structureText (same : SameStructure first second) : first.structureText = second.structureText :=
  congrArg (fun json : Json => Utf8.encode json.compact) same.structureJson

theorem SameStructure.of_structureText (wf : first.WellFormed) (otherWf : second.WellFormed)
    (finite : first.FiniteValues)
    (otherFinite : second.FiniteValues) (same : first.structureText = second.structureText) :
    SameStructure first second := by
  have spelled : first.structureJson.compact = second.structureJson.compact := by
    have decoded := congrArg Utf8.decode? same
    rwa [Graph.structureText, Graph.structureText, Utf8.decode?_encode, Utf8.decode?_encode,
      Option.some.injEq] at decoded
  obtain ⟨nodes, connections⟩ := structureJson_injective finite otherFinite (Document.compact_injective spelled)
  refine .of_links wf otherWf (wf.nodes_eq otherWf nodes) ?_
  exact first.perm_connections.symm.trans ((List.Perm.of_eq connections).trans second.perm_connections)

/-- What is digested for the fingerprint is the same for two graphs just when they have the same nodes and join the
same ports. So the fingerprints of one structure are equal, and those of two structures differ unless the digest
collides on their texts. -/
theorem fingerprint_identifies_structure (wf : first.WellFormed) (otherWf : second.WellFormed)
    (finite : first.FiniteValues) (otherFinite : second.FiniteValues) :
    (first.structureText = second.structureText ↔
      first.nodes = second.nodes ∧ ∀ source target, first.Joins source target ↔ second.Joins source target) ∧
    (SameStructure first second → first.fingerprint = second.fingerprint) ∧
    ((Sha256.digest first.structureText = Sha256.digest second.structureText →
      first.structureText = second.structureText) →
      ¬ SameStructure first second → first.fingerprint ≠ second.fingerprint) := by
  have read := SameStructure.of_structureText wf otherWf finite otherFinite
  refine ⟨⟨?_, ?_⟩, SameStructure.fingerprint, ?_⟩
  · intro same
    exact ⟨(read same).nodes, (read same).joins⟩
  · intro ⟨nodes, joins⟩
    exact SameStructure.structureText ⟨wf, otherWf, nodes, joins⟩
  · intro collisionFree different same
    exact different (read (collisionFree same))

/-- A constant of one element below a node with a name that is escaped. -/
def negated (element : Binary64) : Graph := Graph.empty.history
  [.addNode (.const "c" ⟨.f64, [], .float [element]⟩),
    .addNode { id := "\"n\"", kind := .other "Neg", name := some "a\\b\n" },
    .addNode (.result "z"), .connect ⟨"\"n\"", 0⟩ ⟨"z", 0⟩, .connect ⟨"c", 0⟩ ⟨"\"n\"", 0⟩]

/-- The same graph with a zero, inserted in another order with other edge ids. -/
def negatedZero : Graph := Graph.empty.history
  [.addNode (.result "z"), .addNode { id := "\"n\"", kind := .other "Neg", name := some "a\\b\n" },
    .addNode (.const "c" ⟨.f64, [], .float [.zero]⟩), .addEdge ⟨⟨9⟩, ⟨"\"n\"", 0⟩, ⟨"z", 0⟩⟩,
    .addEdge ⟨⟨7⟩, ⟨"c", 0⟩, ⟨"\"n\"", 0⟩⟩]

/-- Edge ids do not count, and the sign of a zero does. -/
theorem fingerprint_identifies_structure_zeros :
    (negatedZero.edges ≠ (negated .zero).edges ∧ negatedZero.structureText = (negated .zero).structureText ∧
      negatedZero.fingerprint = (negated .zero).fingerprint) ∧
    ((negated .zero).structureText ≠ (negated (.negate .zero)).structureText ∧
      (negated .zero).fingerprint ≠ (negated (.negate .zero)).fingerprint) := by
  have wf (element : Binary64) : (negated element).WellFormed := wellFormed_empty.history _
  have otherWf : negatedZero.WellFormed := wellFormed_empty.history _
  have finite : (negated .zero).FiniteValues ∧ (negated (.negate .zero)).FiniteValues ∧ negatedZero.FiniteValues := by
    decide +kernel
  have nodes : negatedZero.nodes = (negated .zero).nodes := by decide +kernel
  have links : (negatedZero.edgeList.map Edge.link).Perm ((negated .zero).edgeList.map Edge.link) := by decide +kernel
  have same : SameStructure negatedZero (negated .zero) := .of_links otherWf (wf _) nodes links
  have signed : (negated .zero).nodes ≠ (negated (.negate .zero)).nodes := by decide +kernel
  -- a sort is not evaluated, so the edges are given ids in the order that it leaves alone
  have sorted : (negated .zero).connections = (negated .zero).edgeList.map Edge.link :=
    List.mergeSort_of_pairwise (by decide +kernel)
  have sortedNegative : (negated (.negate .zero)).connections = (negated (.negate .zero)).edgeList.map Edge.link :=
    List.mergeSort_of_pairwise (by decide +kernel)
  have digests : Sha256.digest (negated .zero).structureText ≠
      Sha256.digest (negated (.negate .zero)).structureText := by
    simp only [structureText, structureJson, sorted, sortedNegative]
    decide +kernel
  obtain ⟨alike, equal, _⟩ := fingerprint_identifies_structure otherWf (wf .zero) finite.2.2 finite.1
  obtain ⟨differ, _, unequal⟩ := fingerprint_identifies_structure (wf .zero) (wf (.negate .zero)) finite.1 finite.2.1
  refine ⟨⟨by decide +kernel, alike.mpr ⟨same.nodes, same.joins⟩, equal same⟩, ?_, ?_⟩
  · exact fun texts => signed (differ.mp texts).1
  · exact unequal (absurd · digests) fun alike => signed alike.nodes

end Graph
end OpGraph
