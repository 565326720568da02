import OpGraph.Command.Run
import OpGraph.Proofs.Histories
import OpGraph.Proofs.MemberOrder
import OpGraph.Proofs.Rebuilding

/-! Saving and loading. A container is its header, the JSON of a graph and a digest; each part is found again where
the reader looks for it. The JSON gives back the nodes and edges, and inserting these rebuilds the graph. -/

namespace OpGraph

/-! ## Layout of a container -/

namespace Container

@[simp] theorem length_littleEndian (width value : Nat) : (littleEndian width value).length = width := by
  induction width generalizing value with
  | zero => rfl
  | succ width ih => rw [littleEndian, List.length_cons, ih]

theorem readLittleEndian_littleEndian {width value : Nat} (small : value < 256 ^ width) :
    readLittleEndian (littleEndian width value) = value := by
  induction width generalizing value with
  | zero => simp_all [littleEndian, readLittleEndian]
  | succ width ih =>
    have smaller : value / 256 < 256 ^ width := Nat.div_lt_of_lt_mul (by rwa [← Nat.pow_succ'])
    rw [littleEndian, readLittleEndian, ih smaller, UInt8.toNat_ofNat', Nat.mod_add_div]

/-- A count of the header. -/
theorem readLittleEndian_eight {value : Nat} (small : value < 2 ^ 64) :
    readLittleEndian (littleEndian 8 value) = value :=
  readLittleEndian_littleEndian small

theorem slice_append {before middle : Bytes} {start size : Nat} (first : before.length = start)
    (second : middle.length = size) (rest : Bytes) : slice (before ++ (middle ++ rest)) start size = middle := by
  rw [slice, List.drop_left' first, List.take_left' second]

def header (container : Container) (payload : Bytes) : Bytes :=
  magic ++ [container.version.major, container.version.minor, container.version.patch, container.flags.bits]
    ++ littleEndian 8 container.graph.nodeCount ++ littleEndian 8 container.graph.edgeCount
    ++ littleEndian 8 payload.length

variable (container : Container) (payload : Bytes)

theorem bodyWith_eq : container.bodyWith payload = container.header payload ++ payload := rfl

theorem length_header : (container.header payload).length = headerSize := by
  simp [header, magic, headerSize]

theorem length_bodyWith : (container.bodyWith payload).length = headerSize + payload.length := by
  rw [bodyWith_eq, List.length_append, length_header]

theorem length_toBytesWith :
    (container.toBytesWith payload).length = (container.bodyWith payload).length + digestSize := by
  rw [toBytesWith, List.length_append, Sha256.length_digest]
  rfl

/-- The size of the payload stands at the end of the header. -/
theorem slice_header_append (rest : Bytes) :
    slice (container.header payload ++ rest) 24 8 = littleEndian 8 payload.length := by
  have front :
      (magic ++ [container.version.major, container.version.minor, container.version.patch, container.flags.bits]
        ++ littleEndian 8 container.graph.nodeCount ++ littleEndian 8 container.graph.edgeCount).length = 24 := by
    simp [magic]
  rw [header, List.append_assoc]
  exact slice_append front (length_littleEndian 8 _) rest

theorem require_bind {condition : Prop} [Decidable condition] (holds : condition) {error : ContainerError} {α : Type}
    {next : Unit → Except ContainerError α} : (require condition error >>= next) = next () := by
  rw [require, if_pos holds]
  rfl

variable {container payload}

/-- A container is read if its payload is, and has the nodes and edges that the header counts. -/
theorem ofBytes_toBytesWith (compatible : container.version.isCompatible) (payloadSmall : payload.length < 2 ^ 64)
    (nodesSmall : container.graph.nodeCount < 2 ^ 64) (edgesSmall : container.graph.edgeCount < 2 ^ 64) {reread : Graph}
    (read : Graph.ofBytes payload = .ok reread) (sameNodes : reread.nodeCount = container.graph.nodeCount)
    (sameEdges : reread.edgeCount = container.graph.edgeCount) :
    ofBytes (container.toBytesWith payload) = .ok ⟨container.version, container.flags, reread⟩ := by
  have length : (container.toBytesWith payload).length = headerSize + payload.length + digestSize := by
    rw [length_toBytesWith, length_bodyWith]
  have nodes : readLittleEndian (slice (container.toBytesWith payload) 8 8) = container.graph.nodeCount := by
    simp [toBytesWith, bodyWith, slice, magic, readLittleEndian_eight nodesSmall]
  have edges : readLittleEndian (slice (container.toBytesWith payload) 16 8) = container.graph.edgeCount := by
    simp [toBytesWith, bodyWith, slice, magic, readLittleEndian_eight edgesSmall]
  have size : readLittleEndian (slice (container.toBytesWith payload) 24 8) = payload.length := by
    rw [toBytesWith, bodyWith_eq, List.append_assoc, slice_header_append, readLittleEndian_eight payloadSmall]
  have covered : (container.toBytesWith payload).take (headerSize + payload.length) = container.bodyWith payload := by
    rw [toBytesWith, List.take_left' (container.length_bodyWith payload)]
  have digest : slice (container.toBytesWith payload) (headerSize + payload.length) digestSize =
      Sha256.digest (container.bodyWith payload) := by
    have last := slice_append (container.length_bodyWith payload) (Sha256.length_digest (container.bodyWith payload)) []
    rwa [List.append_nil] at last
  have inside : (container.bodyWith payload).drop headerSize = payload := by
    rw [bodyWith_eq, List.drop_left' (container.length_header payload)]
  have version : (⟨byteAt (container.toBytesWith payload) 4, byteAt (container.toBytesWith payload) 5,
      byteAt (container.toBytesWith payload) 6⟩ : FormatVersion) = container.version := rfl
  have flags : byteAt (container.toBytesWith payload) 7 = container.flags.bits := rfl
  have start : (container.toBytesWith payload).take 4 = magic := rfl
  simp only [ofBytes, start, nodes, edges, size, covered, digest, inside, version, flags, read]
  rw [require_bind (by omega), require_bind trivial, require_bind compatible, require_bind (by omega),
    require_bind trivial]
  exact (require_bind sameNodes.symm).trans (require_bind sameEdges.symm)

end Container

/-! ## Graphs in JSON -/

namespace Graph

open Document

/-- A graph whose text can be read: everything in it has a text, and no text is beyond the reader. -/
structure Storable (graph : Graph) : Prop where
  wellFormed : graph.WellFormed
  /-- The text of an edge id spells 128 bits. -/
  ids : ∀ edge ∈ graph.edgeList, edge.id.value < 2 ^ 128
  finite : ∀ node ∈ graph.nodeList, ∀ tensor ∈ node.value, tensor.data.Finite
  nesting : graph.toJson.depth ≤ nestingLimit
  /-- Each double in the text is read as itself. -/
  doubles : ∀ value finite, .float value finite ∈ graph.toJson.numbers → (Number.float value finite).ReadsBack
  /-- The length of the text is one of eight bytes, like that of anything in memory. -/
  small : (Utf8.encode graph.toJson.compact).length < 2 ^ 64

namespace Storable

variable {graph : Graph}

theorem reads (storable : graph.Storable) {json : Json} (writes : graph.Writes json) :
    ∀ number ∈ json.numbers, number.ReadsBack := by
  intro number listed
  rw [writes.mem_numbers] at listed
  cases number with
  | natural value => exact Number.readsBack_natural value
  | negative value isNegative => exact Number.readsBack_negative value isNegative
  | float value isFinite => exact storable.doubles value isFinite listed

theorem readsNodes (storable : graph.Storable) {nodes : List (NodeId × Node)} (same : nodes.Perm graph.nodes.toList) :
    tableOfDocument? some (Node.ofDocument? 2) (ofJson (.object (nodes.map nodeMember))) =
      some graph.nodes := by
  refine tableOfDocument?_ofJson same (fun _ _ => rfl) fun entry listed => Node.ofDocument?_ofJson ?_ ?_
  · intro tensor stored
    exact storable.finite entry.2 (List.mem_map_of_mem listed) tensor stored
  · let members := graph.nodes.toList.map nodeMember
    have member : (entry.1, entry.2.toJson) ∈ members := List.mem_map.mpr ⟨entry, listed, rfl⟩
    have inner := Json.depth_lt_of_mem member
    have outer : (Json.object members).depth < graph.toJson.depth :=
      Json.depth_lt_of_mem (show ("nodes", _) ∈ _ from List.mem_cons_self)
    have limit := storable.nesting
    omega

theorem readsEdges (storable : graph.Storable) {edges : List (EdgeId × Edge)} (same : edges.Perm graph.edges.toList) :
    tableOfDocument? EdgeId.ofText? Edge.ofDocument?
      (ofJson (.object (edges.map edgeMember))) = some graph.edges := by
  refine tableOfDocument?_ofJson same (fun entry listed => ?_) fun entry listed => Edge.ofDocument?_ofJson ?_
  · have own := storable.wellFormed.edge_id (Std.ExtTreeMap.mem_toList_iff_getElem?_eq_some.mp listed)
    have read := EdgeId.ofText?_text (storable.ids entry.2 (List.mem_map_of_mem listed))
    rwa [own] at read
  · exact storable.ids entry.2 (List.mem_map_of_mem listed)

/-- Whatever the order of the members, the same parts are read. -/
theorem partsOfDocument?_ofJson (storable : graph.Storable) {json : Json} (writes : graph.Writes json) :
    partsOfDocument? (ofJson json) = some (graph.nodes.values, graph.edges.values) := by
  obtain ⟨sameNodes, sameEdges⟩ := writes
  have fields (first second : Json) :
      toFields? ["nodes", "edges"] (ofJson (.object [("nodes", first), ("edges", second)])) =
        some [some (ofJson first), some (ofJson second)] := toFields?_ofJson (by simp)
  simp [partsOfDocument?, listingJson, fields, defaulted?, storable.readsNodes sameNodes, storable.readsEdges sameEdges]

/-- Both texts of a graph are read as one graph, which has its nodes and edges. -/
theorem ofBytes (storable : graph.Storable) : ∃ reread, reread.nodes = graph.nodes ∧ reread.edges = graph.edges ∧
    ∀ {json}, graph.Writes json → Graph.ofBytes (Utf8.encode json.compact) = .ok reread ∧
      Graph.ofBytes (Utf8.encode json.indented) = .ok reread := by
  obtain ⟨reread, rebuilt, nodes, edges⟩ := storable.wellFormed.ofParts (.of_eq (values_eq graph.nodes))
    (.of_eq (values_eq graph.edges))
  refine ⟨reread, nodes, edges, fun {json} writes => ?_⟩
  have read {text : String} (taken : leading? (Utf8.encode text) = some (ofJson json, [])) :
      Graph.ofBytes (Utf8.encode text) = .ok reread := by
    simp [Graph.ofBytes, taken, storable.partsOfDocument?_ofJson writes, rebuilt]
  obtain ⟨compact, indented⟩ := leading?_texts (storable.reads writes)
  exact ⟨read compact, read indented⟩

/-- A text has no fewer bytes than the graph has nodes or edges. -/
theorem counts (storable : graph.Storable) :
    graph.nodeCount ≤ (Utf8.encode graph.toJson.compact).length ∧
      graph.edgeCount ≤ (Utf8.encode graph.toJson.compact).length := by
  have spelled := spells_compact graph.toJson (storable.reads graph.writes_toJson)
  have nodes := spelled.length_le (show ("nodes", Json.object _) ∈ _ from List.mem_cons_self)
  have edges := spelled.length_le (show ("edges", Json.object _) ∈ _ from List.mem_cons_of_mem _ List.mem_cons_self)
  rw [List.length_map, Std.ExtTreeMap.length_toList] at nodes edges
  exact ⟨nodes, edges⟩

end Storable

/-- What is saved is loaded again, from a container of any version that can be read and with any flags, and
from either text: the graph that is loaded has the same nodes and edges. The order in which these were written
has no influence on it. -/
theorem storage_is_lossless {graph : Graph} (storable : graph.Storable) {version : FormatVersion}
    (compatible : version.isCompatible) (flags : FormatFlags) :
    ∃ reread : Graph, reread.WellFormed ∧ reread.nodes = graph.nodes ∧ reread.edges = graph.edges ∧
      Container.ofBytes (Container.toBytes ⟨version, flags, graph⟩) = .ok ⟨version, flags, reread⟩ ∧
      Graph.ofBytes (Utf8.encode graph.toJson.compact) = .ok reread ∧
      Graph.ofBytes (Command.graphBytes .json graph) = .ok reread ∧
      ∀ json, graph.Writes json →
        Container.ofBytes (Container.toBytesWith ⟨version, flags, graph⟩ (Utf8.encode json.compact)) =
          .ok ⟨version, flags, reread⟩ ∧
        Graph.ofBytes (Utf8.encode json.compact) = .ok reread ∧
        Graph.ofBytes (Utf8.encode json.indented) = .ok reread := by
  obtain ⟨reread, nodes, edges, read⟩ := storable.ofBytes
  obtain ⟨fewNodes, fewEdges⟩ := storable.counts
  have sameNodes : reread.nodeCount = graph.nodeCount := congrArg Std.ExtTreeMap.size nodes
  have sameEdges : reread.edgeCount = graph.edgeCount := congrArg Std.ExtTreeMap.size edges
  have stored {json : Json} (writes : graph.Writes json) :
      Container.ofBytes (Container.toBytesWith ⟨version, flags, graph⟩ (Utf8.encode json.compact)) =
        .ok ⟨version, flags, reread⟩ :=
    Container.ofBytes_toBytesWith compatible (writes.length_compact.trans_lt storable.small)
      (Nat.lt_of_le_of_lt fewNodes storable.small) (Nat.lt_of_le_of_lt fewEdges storable.small) (read writes).1
      sameNodes sameEdges
  have ascending := graph.writes_toJson
  obtain ⟨compact, indented⟩ := read ascending
  exact ⟨reread, wellFormed_of_ofBytes compact, nodes, edges, stored ascending, compact, indented,
    fun json writes => ⟨stored writes, read writes⟩⟩

/-- A sum under a name that is escaped, with a note of nested values. -/
def remarked : Graph :=
  let note := OrderedJson.array [.number (.ofInt64 (-9223372036854775808)), .number (.float ⟨0x3FB999999999999A⟩ rfl),
    .object (.ofList [("\x01", OrderedJson.string "\t"), ("é", .null)])]
  Graph.empty.history
    [.addNode (.const "c" ⟨.f64, [2], .float [.negate .zero, ⟨0x3FB999999999999A⟩]⟩),
      .addNode (.parameter "x" (some [18446744073709551615])),
      .addNode (Node.withAttribute { id := "\"sum\"", kind := .other "Add", name := some "a\\b\n" } "note" note),
      .addNode (.result "z"), .connect ⟨"c", 0⟩ ⟨"\"sum\"", 1⟩, .connect ⟨"x", 0⟩ ⟨"\"sum\"", 0⟩,
      .connect ⟨"\"sum\"", 0⟩ ⟨"z", 0⟩]

theorem storable_remarked : remarked.Storable where
  wellFormed := wellFormed_empty.history _
  ids := by decide +kernel
  finite := by decide +kernel
  nesting := by decide +kernel
  doubles := by
    have all : ∀ number ∈ remarked.toJson.numbers, number.ReadsBack := by decide +kernel
    exact fun _ _ listed => all _ listed
  small := by decide +kernel

/-- A container of an older version that can be read, with flags that nothing knows; and the same with all members
in reversed order. -/
theorem storage_is_lossless_remarked : remarked.Storable ∧ (⟨0, 0, 9⟩ : FormatVersion).isCompatible ∧
    let reversed := listingJson remarked.nodes.toList.reverse remarked.edges.toList.reverse
    remarked.Writes reversed ∧ reversed ≠ remarked.toJson ∧
    ∃ reread : Graph, reread.WellFormed ∧ reread.nodes = remarked.nodes ∧ reread.edges = remarked.edges ∧
      Container.ofBytes (Container.toBytes ⟨⟨0, 0, 9⟩, ⟨0xA4⟩, remarked⟩) = .ok ⟨⟨0, 0, 9⟩, ⟨0xA4⟩, reread⟩ ∧
      Graph.ofBytes (Utf8.encode remarked.toJson.compact) = .ok reread ∧
      Graph.ofBytes (Command.graphBytes .json remarked) = .ok reread ∧
      Container.ofBytes (Container.toBytesWith ⟨⟨0, 0, 9⟩, ⟨0xA4⟩, remarked⟩ (Utf8.encode reversed.compact)) =
        .ok ⟨⟨0, 0, 9⟩, ⟨0xA4⟩, reread⟩ := by
  have compatible : (⟨0, 0, 9⟩ : FormatVersion).isCompatible := by decide
  have writes := Writes.listing (List.reverse_perm remarked.nodes.toList) (List.reverse_perm remarked.edges.toList)
  obtain ⟨reread, wf, nodes, edges, stored, compact, indented, anyOrder⟩ :=
    storage_is_lossless storable_remarked compatible ⟨0xA4⟩
  exact ⟨storable_remarked, compatible, writes, by decide +kernel, reread, wf, nodes, edges, stored, compact, indented,
    (anyOrder _ writes).1⟩

end Graph
end OpGraph
