import OpGraph.Graph.Error

/-!
Ports written as text. An output port is a node id, or the id, a colon and a port number; an input
port has the number before the colon. Without a number the port is 0. Ids may hold colons: an output
port is split at the last one, an input port at the first.
-/

namespace OpGraph.PortSpec

/-- Decimal digits after an optional plus sign, for a number below `2 ^ 64`. -/
def number? (chars : List Char) : Option UInt64 :=
  let digits := match chars with
    | '+' :: rest => rest
    | chars => chars
  if digits.isEmpty || !digits.all Char.isDigit then none
  else
    let value := digits.foldl (fun value digit => 10 * value + (digit.toNat - 48)) 0
    if value < UInt64.size then some (UInt64.ofNat value) else none

/-- The parts before and after the first colon. -/
def splitFirst? (chars : List Char) : Option (List Char × List Char) :=
  match chars.span (· != ':') with
  | (before, _ :: after) => some (before, after)
  | (_, []) => none

/-- The parts before and after the last colon. -/
def splitLast? (chars : List Char) : Option (List Char × List Char) :=
  (fun (before, after) => (after.reverse, before.reverse)) <$> splitFirst? chars.reverse

def port? (id number : List Char) : Option Port := do
  let index ← number? number
  if id.isEmpty then none else some ⟨String.ofList id, index⟩

/-- A whole text that is an id. -/
def wholeId? (chars : List Char) : Option Port :=
  if chars.isEmpty then none else some ⟨String.ofList chars, 0⟩

def source? (chars : List Char) : Option Port :=
  match splitLast? chars with
  | none => wholeId? chars
  | some (id, number) => port? id number

def target? (chars : List Char) : Option Port :=
  match splitFirst? chars with
  | none => wholeId? chars
  | some (number, id) => port? id number

/-- An output port, `id` or `id:number`. -/
def parseSource (spec : String) : Except GraphError Port :=
  match source? spec.toList with
  | some port => .ok port
  | none => .error (.invalidPortSpec spec)

/-- An input port, `id` or `number:id`. -/
def parseTarget (spec : String) : Except GraphError Port :=
  match target? spec.toList with
  | some port => .ok port
  | none => .error (.invalidPortSpec spec)

end OpGraph.PortSpec
