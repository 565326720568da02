import OpGraph.Decimal.Layout
import OpGraph.Hex
import OpGraph.Json.Value

/-!
The two texts of a JSON value: the compact one without any blanks, and the indented one with an
item to a line. Only quotes, backslashes and control characters are escaped.
-/

namespace OpGraph

namespace Number

/-- Doubles are positional from `0.00001` up to `10 ^ 16`, and every exponent has a sign. -/
def layout : Decimal.Layout := ⟨-5, 16, true, .toEven⟩

def text : Number → String
  | .natural value => toString value.toNat
  | .negative value _ => toString value.toInt
  | .float value _ => layout.render value

end Number

namespace Json

def escapeChar (char : Char) : List Char :=
  match char with
  | '"' => ['\\', '"']
  | '\\' => ['\\', '\\']
  | '\x08' => ['\\', 'b']
  | '\t' => ['\\', 't']
  | '\n' => ['\\', 'n']
  | '\x0c' => ['\\', 'f']
  | '\r' => ['\\', 'r']
  | char =>
    if char.toNat < 0x20 then '\\' :: 'u' :: Hex.digits 4 char.toNat
    else [char]

def quote (text : String) : String :=
  "\"" ++ String.ofList (text.toList.flatMap escapeChar) ++ "\""

mutual

def compact : Json → String
  | .null => "null"
  | .bool true => "true"
  | .bool false => "false"
  | .number value => value.text
  | .string value => quote value
  | .array items => "[" ++ ",".intercalate (compactItems items) ++ "]"
  | .object members => "\x7b" ++ ",".intercalate (compactMembers members) ++ "\x7d"

def compactItems : List Json → List String
  | [] => []
  | item :: rest => compact item :: compactItems rest

def compactMembers : List (String × Json) → List String
  | [] => []
  | (key, value) :: rest => (quote key ++ ":" ++ compact value) :: compactMembers rest

end

/-- A new line at the given depth, two blanks for a level. -/
def newLine (depth : Nat) : String := String.ofList ('\n' :: List.replicate (2 * depth) ' ')

/-- The pieces on lines of their own between two brackets, or the bare brackets. -/
def block (opening closing : String) (depth : Nat) (pieces : List String) : String :=
  if pieces.isEmpty then opening ++ closing
  else opening ++ newLine (depth + 1) ++ ("," ++ newLine (depth + 1)).intercalate pieces
    ++ newLine depth ++ closing

mutual

def indentedAt (depth : Nat) : Json → String
  | .null => "null"
  | .bool true => "true"
  | .bool false => "false"
  | .number value => value.text
  | .string value => quote value
  | .array items => block "[" "]" depth (indentedItems (depth + 1) items)
  | .object members => block "\x7b" "\x7d" depth (indentedMembers (depth + 1) members)

def indentedItems (depth : Nat) : List Json → List String
  | [] => []
  | item :: rest => indentedAt depth item :: indentedItems depth rest

def indentedMembers (depth : Nat) : List (String × Json) → List String
  | [] => []
  | (key, value) :: rest => (quote key ++ ": " ++ indentedAt depth value) :: indentedMembers depth rest

end

def indented (value : Json) : String := indentedAt 0 value

end Json
end OpGraph
