import OpGraph.Json.Value
import Std.Data.ExtTreeMap

/-!
Free-form values: JSON in which every object lists its keys in ascending order, each once. Such a
value is determined by its content, so it reads back as it was written.
-/

namespace OpGraph

structure OrderedJson where
  json : Json
  ordered : json.Ordered

namespace OrderedJson

instance : DecidableEq OrderedJson := fun first second =>
  decidable_of_iff (first.json = second.json) (by cases first; cases second; simp)

def null : OrderedJson := ⟨.null, trivial⟩

def bool (value : Bool) : OrderedJson := ⟨.bool value, trivial⟩

def number (value : Number) : OrderedJson := ⟨.number value, trivial⟩

def string (value : String) : OrderedJson := ⟨.string value, trivial⟩

def array (items : List OrderedJson) : OrderedJson :=
  ⟨.array (items.map json), by
    simp only [Json.Ordered, Json.orderedItems_iff, List.mem_map]
    rintro _ ⟨item, _, rfl⟩
    exact item.ordered⟩

/-- The members of a table, in the order of their keys. -/
def members (table : Std.ExtTreeMap String OrderedJson) : List (String × Json) :=
  table.toList.map fun (key, value) => (key, value.json)

def object (table : Std.ExtTreeMap String OrderedJson) : OrderedJson :=
  ⟨.object (members table), by
    refine ⟨?_, (Json.orderedMembers_iff _).mpr ?_⟩
    · rw [members, List.map_map, List.pairwise_map]
      exact table.ordered_keys_toList.imp fun smaller => compareOfLessAndEq_eq_lt.mp smaller
    · intro member listed
      obtain ⟨⟨_, value⟩, _, rfl⟩ := List.mem_map.mp listed
      exact value.ordered⟩

/-- Equality up to the sign of a zero. -/
def numEq (first second : OrderedJson) : Bool := first.json.numEq second.json

end OrderedJson
end OpGraph
