import OpGraph.Hex
import OpGraph.Json.Extract

/-!
Edge ids. Their text is a universally unique identifier: thirty-two hexadecimal digits in groups of
8, 4, 4, 4 and 12. Writing uses hyphens and lower case; reading also takes the digits without
hyphens, or with them in braces or after `urn:uuid:`. Letters may be in either case.
-/

namespace OpGraph

structure EdgeId where
  value : Nat
deriving DecidableEq

namespace EdgeId

instance : Ord EdgeId := ⟨compareOn value⟩

instance : Std.TransOrd EdgeId := inferInstanceAs (Std.TransCmp (compareOn value))

instance : Std.LawfulEqOrd EdgeId where
  compare_self := Std.ReflOrd.compare_self (α := Nat)
  eq_of_compare := by
    rintro ⟨first⟩ ⟨second⟩ same
    exact congrArg mk (Std.LawfulEqOrd.eq_of_compare (α := Nat) same)

/-- The digits in groups, with hyphens between them. -/
def text (id : EdgeId) : String :=
  let digits := Hex.digits 32 id.value
  let group (start size : Nat) := String.ofList ((digits.drop start).take size)
  "-".intercalate [group 0 8, group 8 4, group 12 4, group 16 4, group 20 12]

/-- The id that all these digits spell. -/
def ofDigits? (digits : List Char) : Option EdgeId := EdgeId.mk <$> Hex.ofDigits? digits

/-- The digits of the five groups, if the hyphens stand where they belong. -/
def ungrouped? (chars : List Char) : Option (List Char) :=
  let hyphens := [8, 13, 18, 23]
  if hyphens.all fun index => chars[index]? == some '-' then
    let group (start size : Nat) := (chars.drop start).take size
    some (group 0 8 ++ group 9 4 ++ group 14 4 ++ group 19 4 ++ chars.drop 24)
  else none

def ofChars? (chars : List Char) : Option EdgeId :=
  match chars.length with
  | 32 => ofDigits? chars
  | 36 => ungrouped? chars >>= ofDigits?
  | 38 =>
    if chars.head? = some '\x7b' ∧ chars.getLast? = some '\x7d' then
      ungrouped? (chars.drop 1).dropLast >>= ofDigits?
    else none
  | 45 =>
    if (chars.take 9).map Char.toLower = "urn:uuid:".toList then
      ungrouped? (chars.drop 9) >>= ofDigits?
    else none
  | _ => none

def ofText? (text : String) : Option EdgeId := ofChars? text.toList

def toJson (id : EdgeId) : Json := .string id.text

def ofDocument? (document : Document) : Option EdgeId := document.toText? >>= ofText?

end EdgeId
end OpGraph
