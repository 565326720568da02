import OpGraph.Binary64.Rounding

/-!
JSON values as they are written. An object lists its members in the order of the text. Numbers keep
three kinds apart, so `1` and `1.0` are different values.
-/

namespace OpGraph

/-- A JSON number: unsigned, negative, or a finite double. -/
inductive Number where
  | natural (value : UInt64)
  | negative (value : Int64) (isNegative : value < 0)
  | float (value : Binary64) (isFinite : value.isFinite)
deriving DecidableEq

namespace Number

/-- Numbers are equal only within a kind; doubles are compared as numbers. -/
def numEq : Number → Number → Bool
  | .float x _, .float y _ => x.numEq y
  | first, second => first == second

def ofNat (value : Nat) : Number := .natural (UInt64.ofNat value)

def ofInt64 (value : Int64) : Number :=
  if isNegative : value < 0 then .negative value isNegative
  else .natural (UInt64.ofNat value.toInt.toNat)

def toUInt64? : Number → Option UInt64
  | .natural value => some value
  | _ => none

/-- A natural number from `2 ^ 63` on has no signed value: its bits would read as a negative one. -/
def toInt64? : Number → Option Int64
  | .natural value => if 0 ≤ value.toInt64 then some value.toInt64 else none
  | .negative value _ => some value
  | .float _ _ => none

/-- A whole number outside the exact range of doubles is rounded to the nearest one. -/
def toBinary64 : Number → Binary64
  | .natural value => Binary64.ofNat value.toNat
  | .negative value _ => Binary64.ofInt value.toInt
  | .float value _ => value

end Number

inductive Json where
  | null
  | bool (value : Bool)
  | number (value : Number)
  | string (value : String)
  | array (items : List Json)
  | object (members : List (String × Json))

namespace Json

instance : Inhabited Json := ⟨.null⟩

/-- A finite double as a number, any other one as `null`. -/
def ofBinary64 (value : Binary64) : Json :=
  if isFinite : value.isFinite then .number (.float value isFinite) else .null

def ofNat (value : Nat) : Json := .number (.ofNat value)

def ofUInt64 (value : UInt64) : Json := .number (.natural value)

def ofInt64 (value : Int64) : Json := .number (.ofInt64 value)

/-- A value or `null`. -/
def ofOption (encode : α → Json) : Option α → Json
  | none => .null
  | some value => encode value

mutual

/-- Equality of trees, given a comparison of numbers. -/
def eqBy (sameNumber : Number → Number → Bool) : Json → Json → Bool
  | .null, .null => true
  | .bool first, .bool second => first == second
  | .number first, .number second => sameNumber first second
  | .string first, .string second => first == second
  | .array first, .array second => eqItemsBy sameNumber first second
  | .object first, .object second => eqMembersBy sameNumber first second
  | _, _ => false

def eqItemsBy (sameNumber : Number → Number → Bool) : List Json → List Json → Bool
  | [], [] => true
  | first :: rest, second :: others => eqBy sameNumber first second && eqItemsBy sameNumber rest others
  | _, _ => false

def eqMembersBy (sameNumber : Number → Number → Bool) : List (String × Json) → List (String × Json) → Bool
  | [], [] => true
  | (key, first) :: rest, (other, second) :: others =>
    key == other && eqBy sameNumber first second && eqMembersBy sameNumber rest others
  | _, _ => false

end

/-- Equality up to the sign of a zero. -/
def numEq : Json → Json → Bool := eqBy Number.numEq

private theorem eqBy_iff (first second : Json) : eqBy (· == ·) first second = true ↔ first = second := by
  refine Json.rec
    (motive_1 := fun first => ∀ second, eqBy (· == ·) first second = true ↔ first = second)
    (motive_2 := fun first => ∀ second, eqItemsBy (· == ·) first second = true ↔ first = second)
    (motive_3 := fun first => ∀ second, eqMembersBy (· == ·) first second = true ↔ first = second)
    (motive_4 := fun first => ∀ second, eqBy (· == ·) first.2 second = true ↔ first.2 = second)
    ?_ ?_ ?_ ?_ ?_ ?_ ?_ ?_ ?_ ?_ ?_ first second
  · intro second; cases second <;> simp [eqBy]
  · intro value second; cases second <;> simp [eqBy]
  · intro value second; cases second <;> simp [eqBy]
  · intro value second; cases second <;> simp [eqBy]
  · intro items ih second; cases second <;> simp [eqBy, ih]
  · intro members ih second; cases second <;> simp [eqBy, ih]
  · intro second; cases second <;> simp [eqItemsBy]
  · intro item rest ihItem ihRest second; cases second <;> simp [eqItemsBy, ihItem, ihRest]
  · intro second; cases second <;> simp [eqMembersBy]
  · intro member rest ihMember ihRest second
    cases second with
    | nil => simp [eqMembersBy]
    | cons other others =>
      obtain ⟨key, value⟩ := member
      obtain ⟨otherKey, otherValue⟩ := other
      simp [eqMembersBy, ihRest, ihMember otherValue, and_assoc]
  · intro key value ih second; exact ih second

instance : DecidableEq Json := fun first second =>
  decidable_of_iff _ (eqBy_iff first second)

mutual

/-- Every object in the tree lists its keys in ascending order, each once. -/
def Ordered : Json → Prop
  | .array items => OrderedItems items
  | .object members => (members.map Prod.fst).Pairwise (· < ·) ∧ OrderedMembers members
  | _ => True

def OrderedItems : List Json → Prop
  | [] => True
  | item :: rest => Ordered item ∧ OrderedItems rest

def OrderedMembers : List (String × Json) → Prop
  | [] => True
  | (_, value) :: rest => Ordered value ∧ OrderedMembers rest

end

theorem orderedItems_iff (items : List Json) : OrderedItems items ↔ ∀ item ∈ items, Ordered item := by
  induction items with
  | nil => simp [OrderedItems]
  | cons item rest ih => simp [OrderedItems, ih]

theorem orderedMembers_iff (members : List (String × Json)) :
    OrderedMembers members ↔ ∀ member ∈ members, Ordered member.2 := by
  induction members with
  | nil => simp [OrderedMembers]
  | cons member rest ih => simp [OrderedMembers, ih]

mutual

/-- The same tree with the members of every object in ascending order of their keys. -/
def sortKeys : Json → Json
  | .array items => .array (sortItems items)
  | .object members => .object ((sortMembers members).mergeSort fun first second => first.1 ≤ second.1)
  | other => other

def sortItems : List Json → List Json
  | [] => []
  | item :: rest => sortKeys item :: sortItems rest

def sortMembers : List (String × Json) → List (String × Json)
  | [] => []
  | (key, value) :: rest => (key, sortKeys value) :: sortMembers rest

end

end Json
end OpGraph
