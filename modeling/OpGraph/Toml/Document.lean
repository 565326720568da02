import OpGraph.Toml.Item

/-!
TOML documents: lines that assign a value to a key, or open a table.
-/

namespace OpGraph.Toml

/-- Arrays and tables in braces may be nested this deep. -/
def nestingLimit : Nat := 79

mutual

/-- A value in which at most `room` levels of arrays and tables in braces are nested. -/
def value? : (fuel room : Nat) → Text → Option (Item × Text)
  | 0, _, _ => none
  | fuel + 1, room, text =>
    match text with
    | '"' :: _ | '\'' :: _ => do
      let (value, rest) ← string? text
      return (.string value, rest)
    | '[' :: rest =>
      match room with
      | 0 => none
      | room + 1 => do
        let (items, rest) ← items? fuel room rest
        return (.array items, rest)
    | '\x7b' :: rest =>
      match room, skipBlanks rest with
      | 0, _ => none
      | _ + 1, '\x7d' :: rest => some (.inline [], rest)
      | room + 1, rest => do
        let (entries, rest) ← entries? fuel room [] rest
        return (.inline entries, rest)
    | text =>
      match text.span isBare with
      | (['t', 'r', 'u', 'e'], rest) => some (.boolean true, rest)
      | (['f', 'a', 'l', 's', 'e'], rest) => some (.boolean false, rest)
      | _ => do
        let (kind, rest) ← scalar? text
        return (.scalar kind, rest)

/-- The items of an array and its closing bracket. They may stand on several lines, and a comma may
follow the last one. -/
def items? : (fuel room : Nat) → Text → Option (List Item × Text)
  | 0, _, _ => none
  | fuel + 1, room, text =>
    match skipLines text.length text with
    | ']' :: rest => some ([], rest)
    | text => do
      let (item, rest) ← value? fuel room text
      match skipLines rest.length rest with
      | ']' :: rest => return ([item], rest)
      | ',' :: rest => do
        let (items, rest) ← items? fuel room rest
        return (item :: items, rest)
      | _ => none

/-- The entries of a table in braces, after those found, and its closing brace; all on one line. -/
def entries? : (fuel room : Nat) → (found : Entries) → Text → Option (Entries × Text)
  | 0, _, _, _ => none
  | fuel + 1, room, found, text => do
    let (path, rest) ← key? text
    let '=' :: rest := rest | none
    let (item, rest) ← value? fuel room (skipBlanks rest)
    let found ← found.assign path.dropLast (← path.getLast?) item
    match skipBlanks rest with
    | '\x7d' :: rest => return (found, rest)
    | ',' :: rest => entries? fuel room found rest
    | _ => none

end

/-- What has been read, and the table that the next keys belong to. -/
structure Progress where
  root : Entries
  table : List String

namespace Progress

def assign (progress : Progress) (path : List String) (item : Item) : Option Progress := do
  let key ← path.getLast?
  let change (_ : Origin) (entries : Entries) := entries.assign path.dropLast key item
  let root ← Entries.updateAt false change progress.table .header progress.root
  return { progress with root }

def openTable (progress : Progress) (path : List String) : Option Progress := do
  return ⟨← progress.root.openTable path.dropLast (← path.getLast?), path⟩

def openElement (progress : Progress) (path : List String) : Option Progress := do
  return ⟨← progress.root.openElement path.dropLast (← path.getLast?), path⟩

end Progress

/-- Reads what stands on a line, if anything, up to its end. -/
def line? (progress : Progress) (text : Text) : Option (Progress × Text) :=
  match skipBlanks text with
  | [] | '#' :: _ | '\n' :: _ | '\r' :: _ => some (progress, text)
  | '[' :: '[' :: rest => do
    let (path, rest) ← key? rest
    let ']' :: ']' :: rest := rest | none
    return (← progress.openElement path, rest)
  | '[' :: rest => do
    let (path, rest) ← key? rest
    let ']' :: rest := rest | none
    return (← progress.openTable path, rest)
  | text => do
    let (path, rest) ← key? text
    let '=' :: rest := rest | none
    let (item, rest) ← value? (2 * rest.length + 2) nestingLimit (skipBlanks rest)
    return (← progress.assign path item, rest)

def lines? : (fuel : Nat) → Progress → Text → Option Entries
  | 0, _, _ => none
  | fuel + 1, progress, text => do
    let (progress, rest) ← line? progress text
    match ← lineEnd? rest with
    | [] => return progress.root
    | rest => lines? fuel progress rest

/-- The entries of a whole document. A byte order mark in front of it does not count. -/
def parse? (text : String) : Option Entries :=
  let chars := match text.toList with
    | '\ufeff' :: rest => rest
    | chars => chars
  lines? (chars.length + 1) ⟨[], []⟩ chars

end OpGraph.Toml
