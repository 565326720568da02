import OpGraph.Json.Extract
import OpGraph.Proofs.JsonTexts
import Mathlib.Data.List.Sort

/-! Values taken out of a document. A record that was written field by field is found field by field. A free-form
value is found whole as long as there is room for its nesting: its members ascend, so the table that is
made of them lists just these members. -/

namespace OpGraph

/-! ## Tables -/

section
variable {κ α : Type} [DecidableEq κ] [Ord κ] [Std.TransOrd κ] [Std.LawfulEqOrd κ]

theorem getElem?_ofList {entries : List (κ × α)}
    (distinct : entries.Pairwise fun first second => ¬ compare first.1 second.1 = .eq) {key : κ} {value : α} :
    (Std.ExtTreeMap.ofList entries)[key]? = some value ↔ (key, value) ∈ entries := by
  constructor
  · intro found
    by_cases listed : ∃ other, (key, other) ∈ entries
    · obtain ⟨other, listed⟩ := listed
      rw [Std.ExtTreeMap.getElem?_ofList_of_mem Std.ReflOrd.compare_self distinct listed] at found
      cases found
      exact listed
    · have absent : (entries.map Prod.fst).contains key = false := by
        simpa using fun value member => listed ⟨value, member⟩
      rw [Std.ExtTreeMap.getElem?_ofList_of_contains_eq_false absent] at found
      cases found
  · intro listed
    exact Std.ExtTreeMap.getElem?_ofList_of_mem Std.ReflOrd.compare_self distinct listed

theorem toList_ofList {entries : List (κ × α)}
    (ascending : entries.Pairwise fun first second => compare first.1 second.1 = .lt) :
    (Std.ExtTreeMap.ofList entries).toList = entries := by
  have distinct : entries.Pairwise fun first second => ¬ compare first.1 second.1 = .eq :=
    ascending.imp fun smaller same => by rw [smaller] at same; cases same
  have irrefl : Std.Irrefl fun first second : κ × α => compare first.1 second.1 = .lt :=
    ⟨fun entry smaller => by rw [Std.ReflOrd.compare_self] at smaller; cases smaller⟩
  have antisymm : Std.Antisymm fun first second : κ × α => compare first.1 second.1 = .lt :=
    ⟨fun first second smaller greater => by rw [Std.OrientedCmp.gt_of_lt smaller] at greater; cases greater⟩
  refine List.Pairwise.eq_of_mem_iff Std.ExtTreeMap.ordered_keys_toList ascending fun (key, value) => ?_
  rw [Std.ExtTreeMap.mem_toList_iff_getElem?_eq_some, getElem?_ofList distinct]

/-- A table is made of its entries in any order. -/
theorem ofList_perm {table : Std.ExtTreeMap κ α} {entries : List (κ × α)} (same : entries.Perm table.toList) :
    Std.ExtTreeMap.ofList entries = table := by
  have symmetric {first second : κ × α} (differ : ¬ compare first.1 second.1 = .eq) :
      ¬ compare second.1 first.1 = .eq :=
    fun equal => differ (Std.OrientedCmp.eq_symm equal)
  have distinct := (same.pairwise_iff symmetric).mpr table.distinct_keys_toList
  refine Std.ExtTreeMap.ext_getElem? fun key => Option.ext fun value => ?_
  rw [getElem?_ofList distinct, same.mem_iff, Std.ExtTreeMap.mem_toList_iff_getElem?_eq_some]

end

/-! ## Nesting -/

namespace Json

mutual

/-- How many arrays and objects stand around the innermost values. -/
def depth : Json → Nat
  | .array items => depthOfItems items + 1
  | .object members => depthOfMembers members + 1
  | _ => 0

def depthOfItems : List Json → Nat
  | [] => 0
  | item :: rest => max (depth item) (depthOfItems rest)

def depthOfMembers : List (String × Json) → Nat
  | [] => 0
  | (_, value) :: rest => max (depth value) (depthOfMembers rest)

end

theorem depth_lt_of_mem {members : List (String × Json)} {key : String} {value : Json}
    (listed : (key, value) ∈ members) : value.depth < (object members).depth := by
  induction members with
  | nil => cases listed
  | cons first rest ih =>
    simp only [depth, depthOfMembers] at ih ⊢
    cases listed with
    | head => exact Nat.lt_succ_of_le (Nat.le_max_left _ _)
    | tail _ later => exact Nat.lt_of_lt_of_le (ih later) (Nat.succ_le_succ (Nat.le_max_right _ _))

end Json

namespace Document

theorem ofItems_eq_map (items : List Json) : ofItems items = items.map ofJson := by
  induction items with
  | nil => rfl
  | cons item items ih => rw [ofItems, ih, List.map_cons]

theorem ofMembers_eq_map (members : List (String × Json)) :
    ofMembers members = members.map fun member => (some member.1, ofJson member.2) := by
  induction members with
  | nil => rfl
  | cons member members ih => rw [ofMembers, ih, List.map_cons]

/-! ## Lists -/

theorem mapM_map {α β γ : Type} {encode : α → β} {decode? : β → Option γ} {change : α → γ} {values : List α}
    (reads : ∀ value ∈ values, decode? (encode value) = some (change value)) :
    (values.map encode).mapM decode? = some (values.map change) := by
  induction values with
  | nil => rfl
  | cons value values ih =>
    obtain ⟨first, rest⟩ := List.forall_mem_cons.mp reads
    rw [List.map_cons, List.mapM_cons, first, ih rest]
    rfl

variable {α : Type}

theorem toList?_ofJson {encode : α → Json} {item? : Document → Option α} {values : List α}
    (reads : ∀ value ∈ values, item? (ofJson (encode value)) = some value) :
    toList? item? (ofJson (.array (values.map encode))) = some values := by
  rw [ofJson, ofItems_eq_map, List.map_map, toList?]
  exact (mapM_map reads).trans (congrArg some (List.map_id values))

theorem toMembers?_ofJson (members : List (String × Json)) :
    toMembers? (ofJson (.object members)) = some (members.map fun member => (member.1, ofJson member.2)) := by
  rw [ofJson, ofMembers_eq_map, toMembers?]
  exact mapM_map fun member _ => rfl

/-! ## Records -/

theorem single?_of_mem {members : List (String × Document)} (distinct : (members.map Prod.fst).Nodup)
    {name : String} {value : Document} (listed : (name, value) ∈ members) :
    single? members name = some (some value) := by
  have only : members.filter (fun member => member.1 == name) = [(name, value)] := by
    induction members with
    | nil => cases listed
    | cons member members ih =>
      obtain ⟨fresh, distinct⟩ := List.nodup_cons.mp distinct
      cases listed with
      | head =>
        have none : members.filter (fun member => member.1 == name) = [] :=
          List.filter_eq_nil_iff.mpr fun other later same => fresh (List.mem_map.mpr ⟨other, later, beq_iff_eq.mp same⟩)
        simp [none]
      | tail _ later =>
        have other : (member.1 == name) = false :=
          beq_eq_false_iff_ne.mpr fun same => fresh (List.mem_map.mpr ⟨_, later, same.symm⟩)
        rw [List.filter_cons_of_neg (by simp [other]), ih distinct later]
  rw [single?, only]

/-- A record with fields of different names has just these fields. -/
theorem toFields?_ofJson {members : List (String × Json)} (distinct : (members.map Prod.fst).Nodup) :
    toFields? (members.map Prod.fst) (ofJson (.object members)) =
      some (members.map fun member => some (ofJson member.2)) := by
  have listed := toMembers?_ofJson members
  rw [ofJson] at listed ⊢
  rw [toFields?, listed]
  · refine mapM_map fun member among => single?_of_mem ?_ (List.mem_map.mpr ⟨member, among, rfl⟩)
    rw [List.map_map]
    exact distinct
  · intro items impossible
    cases impossible

theorem optional?_ofJson {encode : α → Json} {value? : Document → Option α} {value : Option α}
    (some : ∀ value, encode value ≠ .null)
    (reads : ∀ found, value = .some found → value? (ofJson (encode found)) = .some found) :
    optional? value? (.some (ofJson (.ofOption encode value))) = .some value := by
  cases value with
  | none => rfl
  | some found =>
    have read := reads found rfl
    have present := some found
    rw [optional?, defaulted?, Json.ofOption]
    cases json : encode found with
    | null => exact absurd json present
    | _ =>
      rw [json] at read
      rw [ofJson] at read ⊢
      rw [toOption?, read]
      · rfl
      · intro impossible
        cases impossible

end Document

/-! ## Free-form values -/

theorem OrderedJson.ext {first second : OrderedJson} (same : first.json = second.json) : first = second := by
  cases first
  cases same
  rfl

/-- Ascending members are the members of the table made of them. -/
theorem OrderedJson.members_ofList {entries : List (String × OrderedJson)}
    (ascending : (entries.map Prod.fst).Pairwise (· < ·)) :
    members (.ofList entries) = entries.map fun (key, value) => (key, value.json) := by
  rw [members, toList_ofList]
  exact (List.pairwise_map.mp ascending).imp fun smaller => compareOfLessAndEq_eq_lt.mpr smaller

namespace Document

mutual

theorem toOrdered?_ofJson (json : Json) (ordered : json.Ordered) {room : Nat} (fits : json.depth ≤ room) :
    toOrdered? room (ofJson json) = some ⟨json, ordered⟩ := by
  cases json with
  | null => cases room <;> rfl
  | bool value => cases room <;> rfl
  | number value => cases room <;> rfl
  | string value => cases room <;> rfl
  | array items =>
    rw [Json.depth] at fits
    obtain ⟨room, rfl⟩ : ∃ less, room = less + 1 := ⟨room - 1, by omega⟩
    obtain ⟨values, same, read⟩ := toOrdered?_ofItems items ordered (show Json.depthOfItems items ≤ room by omega)
    rw [ofJson, toOrdered?, read]
    exact congrArg some (OrderedJson.ext (congrArg Json.array same))
  | object members =>
    rw [Json.depth] at fits
    obtain ⟨room, rfl⟩ : ∃ less, room = less + 1 := ⟨room - 1, by omega⟩
    obtain ⟨entries, same, read⟩ :=
      toOrdered?_ofMembers members ordered.2 (show Json.depthOfMembers members ≤ room by omega)
    have keys : entries.map Prod.fst = members.map Prod.fst := by
      rw [← same, List.map_map]
      rfl
    have listed := OrderedJson.members_ofList (show (entries.map Prod.fst).Pairwise (· < ·) from keys ▸ ordered.1)
    rw [ofJson, toOrdered?, read]
    exact congrArg some (OrderedJson.ext (congrArg Json.object (listed.trans same)))

theorem toOrdered?_ofItems (items : List Json) (ordered : Json.OrderedItems items) {room : Nat}
    (fits : Json.depthOfItems items ≤ room) :
    ∃ values : List OrderedJson, values.map OrderedJson.json = items ∧
      (ofItems items).mapM (toOrdered? room) = some values := by
  cases items with
  | nil => exact ⟨[], rfl, rfl⟩
  | cons item items =>
    rw [Json.depthOfItems, Nat.max_le] at fits
    obtain ⟨values, same, read⟩ := toOrdered?_ofItems items ordered.2 fits.2
    refine ⟨⟨item, ordered.1⟩ :: values, congrArg (item :: ·) same, ?_⟩
    rw [ofItems, List.mapM_cons, toOrdered?_ofJson item ordered.1 fits.1, read]
    rfl

theorem toOrdered?_ofMembers (members : List (String × Json)) (ordered : Json.OrderedMembers members) {room : Nat}
    (fits : Json.depthOfMembers members ≤ room) :
    ∃ entries : List (String × OrderedJson), (entries.map fun (key, value) => (key, value.json)) = members ∧
      ((ofMembers members).mapM fun (key, value) => do return (← key, ← toOrdered? room value)) = some entries := by
  cases members with
  | nil => exact ⟨[], rfl, rfl⟩
  | cons member members =>
    obtain ⟨key, value⟩ := member
    rw [Json.depthOfMembers, Nat.max_le] at fits
    obtain ⟨entries, same, read⟩ := toOrdered?_ofMembers members ordered.2 fits.2
    refine ⟨(key, ⟨value, ordered.1⟩) :: entries, congrArg ((key, value) :: ·) same, ?_⟩
    rw [ofMembers, List.mapM_cons, read]
    simp [toOrdered?_ofJson value ordered.1 fits.1]

end

end Document
end OpGraph
