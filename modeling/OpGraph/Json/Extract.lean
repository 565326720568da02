import OpGraph.Json.Document
import OpGraph.Json.Ordered

/-!
Typed values taken out of a document. A record is an object of its fields, or an array of them in
order; fields it does not know are not looked at. A choice is the name of an alternative, or an
object of its one name and content.
-/

namespace OpGraph.Document

/-- Arrays and objects may be nested this deep wherever their content is asked for. -/
def nestingLimit : Nat := 127

def toText? : Document → Option String
  | .string value => value
  | _ => none

def toBool? : Document → Option Bool
  | .bool value => some value
  | _ => none

def toUInt64? : Document → Option UInt64
  | .number value => value >>= Number.toUInt64?
  | _ => none

def toInt64? : Document → Option Int64
  | .number value => value >>= Number.toInt64?
  | _ => none

def toBinary64? : Document → Option Binary64
  | .number value => Number.toBinary64 <$> value
  | _ => none

def toItems? : Document → Option (List Document)
  | .array items => some items
  | _ => none

/-- An array whose items are all of one kind. -/
def toList? (item? : Document → Option α) (document : Document) : Option (List α) :=
  document.toItems? >>= List.mapM item?

/-- A value or `null`. -/
def toOption? (value? : Document → Option α) : Document → Option (Option α)
  | .null => some none
  | document => some <$> value? document

/-- The members of an object, repeated keys included. -/
def toMembers? : Document → Option (List (String × Document))
  | .object members => members.mapM fun (key, value) => (·, value) <$> key
  | _ => none

/-! ## Records -/

/-- The value of a key that occurs at most once. -/
def single? (members : List (String × Document)) (name : String) : Option (Option Document) :=
  match members.filter fun member => member.1 == name with
  | [] => some none
  | [(_, value)] => some (some value)
  | _ => none

/-- The fields of a record, in the order of their names; an absent one is `none`. -/
def toFields? (names : List String) : Document → Option (List (Option Document))
  | .array items =>
    if items.length ≤ names.length then
      some (items.map some ++ List.replicate (names.length - items.length) none)
    else none
  | document => do
    let members ← document.toMembers?
    names.mapM (single? members)

def required? (value? : Document → Option α) (field : Option Document) : Option α := field >>= value?

def defaulted? (default : α) (value? : Document → Option α) : Option Document → Option α
  | none => some default
  | some document => value? document

/-- A field that may be absent or `null`. -/
def optional? (value? : Document → Option α) : Option Document → Option (Option α) :=
  defaulted? none (toOption? value?)

/-! ## Choices -/

/-- The name of an alternative and its content, if it has one. -/
def toChoice? : Document → Option (String × Option Document)
  | .string name => (·, none) <$> name
  | .object [(key, content)] => (·, some content) <$> key
  | _ => none

/-- An alternative without content is its name alone, or has the content `null`. -/
def isEmptyContent : Option Document → Bool
  | none | some .null => true
  | some _ => false

/-! ## Free-form values -/

/-- A value with at most `room` levels of nesting. Of a repeated key the last value counts. -/
def toOrdered? : (room : Nat) → Document → Option OrderedJson
  | _, .null => some .null
  | _, .bool value => some (.bool value)
  | _, .number value => OrderedJson.number <$> value
  | _, .string value => OrderedJson.string <$> value
  | 0, .array _ | 0, .object _ => none
  | room + 1, .array items => OrderedJson.array <$> items.mapM (toOrdered? room)
  | room + 1, .object members => do
    let entries ← members.mapM fun (key, value) => return (← key, ← toOrdered? room value)
    return .object (.ofList entries)

end OpGraph.Document
