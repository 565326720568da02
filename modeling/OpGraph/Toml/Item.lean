import OpGraph.Toml.Lexeme

/-!
The content of a TOML document while it is read. A table remembers how it came to be, since that
decides what may still be added to it.
-/

namespace OpGraph.Toml

/-- How a table was introduced: by its own header, by the header of a table inside it, or by a dotted
key. -/
inductive Origin where
  | header
  | inner
  | dotted
deriving DecidableEq

inductive Item where
  | string (value : String)
  | boolean (value : Bool)
  | scalar (kind : Scalar)
  | array (items : List Item)
  /-- A table in braces; nothing can be added to it. -/
  | inline (entries : List (String × Item))
  | table (origin : Origin) (entries : List (String × Item))
  /-- The tables under a doubly bracketed header, last one first; keys are added to the last one. -/
  | tables (items : List Item)

abbrev Entries := List (String × Item)

namespace Entries

def put (entries : Entries) (key : String) (item : Item) : Entries :=
  match entries with
  | [] => [(key, item)]
  | (other, value) :: rest =>
    if other = key then (key, item) :: rest else (other, value) :: put rest key item

/-- Changes the table at the end of a path and creates those on the way that are missing. A dotted key
does not reach into a table that has a header. -/
def updateAt (byDots : Bool) (change : Origin → Entries → Option Entries) :
    (path : List String) → (origin : Origin) → Entries → Option Entries
  | [], origin, entries => change origin entries
  | key :: path, _, entries =>
    match entries.lookup key with
    | none => do
      let origin : Origin := if byDots then .dotted else .inner
      return entries.put key (.table origin (← updateAt byDots change path origin []))
    | some (.table origin inner) =>
      if byDots ∧ origin = .header then none
      else do return entries.put key (.table origin (← updateAt byDots change path origin inner))
    | some (.tables (.table origin inner :: earlier)) => do
      let inner ← updateAt byDots change path origin inner
      return entries.put key (.tables (.table origin inner :: earlier))
    | some _ => none

/-- Adds a key that is not there yet. A dotted key ends in a table that only dotted keys made, and
another one in a table that they did not make. -/
def assign (path : List String) (key : String) (item : Item) (entries : Entries) : Option Entries :=
  updateAt true (fun origin entries =>
    if (origin == .dotted) == path.isEmpty then none
    else match entries.lookup key with
      | none => some (entries.put key item)
      | some _ => none) path .header entries

/-- Opens a table under its own header, which it may have only once. -/
def openTable (path : List String) (key : String) (entries : Entries) : Option Entries :=
  updateAt false (fun _ entries =>
    match entries.lookup key with
    | none => some (entries.put key (.table .header []))
    | some (.table .inner inner) => some (entries.put key (.table .header inner))
    | some _ => none) path .header entries

/-- Opens one more table under a doubly bracketed header. -/
def openElement (path : List String) (key : String) (entries : Entries) : Option Entries :=
  updateAt false (fun _ entries =>
    match entries.lookup key with
    | none => some (entries.put key (.tables [.table .header []]))
    | some (.tables items) => some (entries.put key (.tables (.table .header [] :: items)))
    | some _ => none) path .header entries

end Entries
end OpGraph.Toml
