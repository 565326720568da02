import OpGraph.Json.Extract

/-!
Element types of tensors. A type has two texts: its name in files, and the one shown to people.
-/

namespace OpGraph

inductive ElementType where
  | i32
  | i64
  | u8
  | f16
  | f32
  | f64
  | boolean
deriving DecidableEq

namespace ElementType

def all : List ElementType := [.i32, .i64, .u8, .f16, .f32, .f64, .boolean]

/-- The name in files. -/
def name : ElementType → String
  | i32 => "i32"
  | i64 => "i64"
  | u8 => "u8"
  | f16 => "f16"
  | f32 => "f32"
  | f64 => "f64"
  | boolean => "bool"

def ofName? (name : String) : Option ElementType := all.find? fun elementType => elementType.name == name

/-- The text shown to people, in which the truth type is spelled out. -/
def display : ElementType → String
  | boolean => "boolean"
  | other => other.name

/-- Whether values of this type are stored as integers. -/
def isInteger : ElementType → Bool
  | i32 | i64 | u8 | boolean => true
  | f16 | f32 | f64 => false

/-- Whether an operation that computes shapes may have this output type. -/
def isIndex : ElementType → Bool
  | i32 | i64 => true
  | _ => false

def toJson (elementType : ElementType) : Json := .string elementType.name

def ofDocument? (document : Document) : Option ElementType := do
  let (name, content) ← document.toChoice?
  if Document.isEmptyContent content then ofName? name else none

theorem ofName?_name (elementType : ElementType) : ofName? elementType.name = some elementType := by
  cases elementType <;> decide

end ElementType
end OpGraph
