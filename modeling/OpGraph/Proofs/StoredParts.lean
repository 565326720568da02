import OpGraph.Graph.Text
import OpGraph.Proofs.JsonDocuments

/-! Tensors, edges and nodes as they are written and read. Each is read as it was written; only a double that is
not finite has no text, and attributes are refused beyond the nesting limit. -/

namespace OpGraph

open Document

/-! ## Tensors -/

theorem Number.toInt64?_ofInt64 (value : Int64) : (Number.ofInt64 value).toInt64? = some value := by
  rw [ofInt64]
  split
  · rfl
  · next whole =>
    have whole : 0 ≤ value := Int64.not_lt.mp whole
    have same : (UInt64.ofNat value.toInt.toNat).toInt64 = value := Int64.ofNat_toNatClampNeg value whole
    rw [toInt64?, same, if_pos whole]

namespace TensorData

def Finite : TensorData → Prop
  | int _ => True
  | float values => ∀ value ∈ values, value.isFinite

instance : (data : TensorData) → Decidable data.Finite
  | int _ => inferInstanceAs (Decidable True)
  | float values => inferInstanceAs (Decidable (∀ value ∈ values, value.isFinite))

theorem ofDocument?_ofJson {data : TensorData} (finite : data.Finite) :
    ofDocument? (ofJson data.toJson) = some data := by
  cases data with
  | int values =>
    have read := toList?_ofJson (fun value (_ : value ∈ values) =>
      show toInt64? (ofJson (Json.ofInt64 value)) = some value from Number.toInt64?_ofInt64 value)
    exact congrArg (int <$> ·) read
  | float values =>
    have read := toList?_ofJson (fun value (listed : value ∈ values) =>
      show toBinary64? (ofJson (Json.ofBinary64 value)) = some value by
        rw [Json.ofBinary64, dif_pos (finite value listed)]
        rfl)
    exact congrArg (float <$> ·) read

end TensorData

theorem ElementType.ofDocument?_ofJson (elementType : ElementType) :
    ElementType.ofDocument? (ofJson elementType.toJson) = some elementType := ElementType.ofName?_name elementType

theorem Shape.ofDocument?_ofJson (shape : Shape) : Shape.ofDocument? (ofJson shape.toJson) = some shape :=
  toList?_ofJson fun _ _ => rfl

theorem Tensor.ofDocument?_ofJson {tensor : Tensor} (finite : tensor.data.Finite) :
    Tensor.ofDocument? (ofJson tensor.toJson) = some tensor := by
  have fields : toFields? ["element_type", "shape", "data"] (ofJson tensor.toJson) =
      some [some (ofJson tensor.elementType.toJson), some (ofJson tensor.shape.toJson),
        some (ofJson tensor.data.toJson)] :=
    toFields?_ofJson (by simp)
  simp [Tensor.ofDocument?, fields, required?, ElementType.ofDocument?_ofJson, Shape.ofDocument?_ofJson,
    TensorData.ofDocument?_ofJson finite]

/-! ## Edges -/

theorem Port.ofDocument?_ofJson (port : Port) : Port.ofDocument? (ofJson port.toJson) = some port := rfl

namespace EdgeId

theorem ungrouped?_eq {first second third fourth fifth : List Char} (eight : first.length = 8)
    (four : second.length = 4) (alsoFour : third.length = 4) (againFour : fourth.length = 4) :
    ungrouped? (first ++ '-' :: (second ++ '-' :: (third ++ '-' :: (fourth ++ '-' :: fifth)))) =
      some (first ++ second ++ third ++ fourth ++ fifth) := by
  simp (disch := omega) [ungrouped?, List.getElem?_append, List.drop_append, List.drop_eq_nil_of_le,
    eight, four, alsoFour, againFour]
  exact ⟨rfl, rfl, rfl, rfl⟩

theorem toList_text (id : EdgeId) : id.text.toList =
    let digits := Hex.digits 32 id.value
    digits.take 8 ++ '-' :: ((digits.drop 8).take 4 ++ '-' :: ((digits.drop 12).take 4 ++
      '-' :: ((digits.drop 16).take 4 ++ '-' :: (digits.drop 20).take 12))) := by
  simp [text, String.intercalate_cons_cons]

theorem ofText?_text {id : EdgeId} (small : id.value < 2 ^ 128) : ofText? id.text = some id := by
  have spelled := Hex.ofDigits?_digits (show id.value < 16 ^ 32 from small)
  have length := Hex.length_digits 32 id.value
  have text := id.toList_text
  generalize Hex.digits 32 id.value = digits at spelled length text
  have whole : digits.take 8 ++ (digits.drop 8).take 4 ++ (digits.drop 12).take 4 ++ (digits.drop 16).take 4 ++
      (digits.drop 20).take 12 = digits := by
    rw [← List.take_add, ← List.take_add, ← List.take_add, ← List.take_add, List.take_of_length_le (by omega)]
  have size : id.text.toList.length = 36 := by simp [text, length]
  have grouped : ungrouped? id.text.toList = some digits := by
    rw [text, ungrouped?_eq (by simp [length]) (by simp [length]) (by simp [length]) (by simp [length]), whole]
  have read : ofChars? id.text.toList = (ungrouped? id.text.toList >>= ofDigits?) := by
    rw [ofChars?, size]
    rfl
  rw [ofText?, read, grouped, Option.bind_eq_bind, Option.bind_some, ofDigits?, spelled]
  rfl

end EdgeId

theorem EdgeId.ofDocument?_ofJson {id : EdgeId} (small : id.value < 2 ^ 128) :
    EdgeId.ofDocument? (ofJson id.toJson) = some id := by
  rw [EdgeId.ofDocument?, EdgeId.toJson, ofJson, toText?, Option.bind_eq_bind, Option.bind_some,
    EdgeId.ofText?_text small]

theorem Edge.ofDocument?_ofJson {edge : Edge} (small : edge.id.value < 2 ^ 128) :
    Edge.ofDocument? (ofJson edge.toJson) = some edge := by
  have fields : toFields? ["id", "source", "target"] (ofJson edge.toJson) =
      some [some (ofJson edge.id.toJson), some (ofJson edge.source.toJson), some (ofJson edge.target.toJson)] :=
    toFields?_ofJson (by simp)
  simp [Edge.ofDocument?, fields, required?, EdgeId.ofDocument?_ofJson small, Port.ofDocument?_ofJson]

/-! ## Tables -/

/-- A table is read from its entries as members, in any order, if each key and each value is. -/
theorem tableOfDocument?_ofJson {κ α : Type} [DecidableEq κ] [Ord κ] [Std.TransOrd κ] [Std.LawfulEqOrd κ]
    {table : Std.ExtTreeMap κ α} {entries : List (κ × α)} (same : entries.Perm table.toList)
    {write : κ × α → String × Json} {key? : String → Option κ} {value? : Document → Option α}
    (keys : ∀ entry ∈ table.toList, key? (write entry).1 = some entry.1)
    (values : ∀ entry ∈ table.toList, value? (ofJson (write entry).2) = some entry.2) :
    Graph.tableOfDocument? key? value? (ofJson (.object (entries.map write))) = some table := by
  have read : ((entries.map fun entry => ((write entry).1, ofJson (write entry).2)).mapM
      fun member => do return (← key? member.1, ← value? member.2)) = some (entries.map id) := by
    refine mapM_map fun entry listed => ?_
    have listed := same.mem_iff.mp listed
    simp [keys entry listed, values entry listed]
  rw [Graph.tableOfDocument?, toMembers?_ofJson, List.map_map]
  rw [List.map_id] at read
  refine Eq.trans ?_ (congrArg some (ofList_perm same))
  exact congrArg (fun found : Option (List (κ × α)) => found >>= fun entries =>
    some (Std.ExtTreeMap.ofList entries compare)) read

namespace Attributes

theorem ofDocument?_eq (room : Nat) (document : Document) :
    Attributes.ofDocument? room document = Graph.tableOfDocument? some (toOrdered? room) document := by
  rw [Attributes.ofDocument?, Graph.tableOfDocument?]
  congr
  funext members
  congr
  funext (key, value)
  cases read : value.toOrdered? room <;> simp [read]

theorem ofDocument?_ofJson {attributes : Attributes} {room : Nat} (fits : attributes.toJson.depth ≤ room + 1) :
    Attributes.ofDocument? room (ofJson attributes.toJson) = some attributes := by
  rw [ofDocument?_eq]
  refine tableOfDocument?_ofJson (.refl _) (fun _ _ => rfl) fun entry listed => toOrdered?_ofJson _ entry.2.ordered ?_
  have member : (entry.1, entry.2.json) ∈ OrderedJson.members attributes := List.mem_map.mpr ⟨entry, listed, rfl⟩
  have deeper := Json.depth_lt_of_mem member
  rw [toJson] at fits
  omega

end Attributes

/-! ## Nodes -/

theorem NodeKind.ofDocument?_ofJson (kind : NodeKind) : NodeKind.ofDocument? (ofJson kind.toJson) = some kind := by
  cases kind <;> rfl

theorem Node.ofDocument?_ofJson {node : Node}
    (finite : ∀ tensor, node.value = some tensor → tensor.data.Finite) {depth : Nat}
    (fits : node.toJson.depth + depth ≤ nestingLimit) : Node.ofDocument? depth (ofJson node.toJson) = some node := by
  have fields : toFields? ["id", "kind", "name", "output_type", "value", "shape", "attrs"] (ofJson node.toJson) =
      some [some (ofJson (.string node.id)), some (ofJson node.kind.toJson),
        some (ofJson (.ofOption .string node.name)), some (ofJson (.ofOption ElementType.toJson node.outputType)),
        some (ofJson (.ofOption Tensor.toJson node.value)), some (ofJson (.ofOption Shape.toJson node.shape)),
        some (ofJson node.attributes.toJson)] :=
    toFields?_ofJson (by simp)
  have id : toText? (ofJson (.string node.id)) = some node.id := rfl
  have name : optional? toText? (some (ofJson (.ofOption .string node.name))) = some node.name :=
    optional?_ofJson (fun _ => nofun) fun _ _ => rfl
  have outputType : optional? ElementType.ofDocument? (some (ofJson (.ofOption ElementType.toJson node.outputType))) =
      some node.outputType := optional?_ofJson (fun _ => nofun) fun found _ => ElementType.ofDocument?_ofJson found
  have value : optional? Tensor.ofDocument? (some (ofJson (.ofOption Tensor.toJson node.value))) = some node.value :=
    optional?_ofJson (fun _ => nofun) fun found same => Tensor.ofDocument?_ofJson (finite found same)
  have shape : optional? Shape.ofDocument? (some (ofJson (.ofOption Shape.toJson node.shape))) = some node.shape :=
    optional?_ofJson (fun _ => nofun) fun found _ => Shape.ofDocument?_ofJson found
  have nested : node.attributes.toJson.depth < node.toJson.depth :=
    Json.depth_lt_of_mem (show ("attrs", _) ∈ _ by simp)
  have attributes : Attributes.ofDocument? (nestingLimit - (depth + 2)) (ofJson node.attributes.toJson) =
      some node.attributes :=
    Attributes.ofDocument?_ofJson (by omega)
  simp [Node.ofDocument?, fields, required?, defaulted?, id, NodeKind.ofDocument?_ofJson, name, outputType, value,
    shape, attributes]

end OpGraph
