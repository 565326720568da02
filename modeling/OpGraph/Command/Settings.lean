import OpGraph.Toml.Document

/-!
The settings file. A section is a table, or an array of its entries in order; keys that it does not
know are ignored. A date counts as a section without entries.
-/

namespace OpGraph

structure Settings where
  /-- The passes to leave out. -/
  disabled : List String := []
  /-- Whether dead nodes are removed; they are, unless this says otherwise. -/
  cleanup : Option Bool := none
  logLevel : Option String := none
deriving DecidableEq

namespace Settings

/-- The file that is looked for where none is named. -/
def fileName : String := "mofront.toml"

def cleanupEnabled (settings : Settings) : Bool := settings.cleanup.getD true

def text? : Toml.Item → Option String
  | .string value => some value
  | _ => none

def boolean? : Toml.Item → Option Bool
  | .boolean value => some value
  | _ => none

def texts? : Toml.Item → Option (List String)
  | .array items => items.mapM text?
  | _ => none

/-- The entries of a section, in the order of their names; an absent one is `none`. -/
def section? (names : List String) : Option Toml.Item → Option (List (Option Toml.Item))
  | none => some (names.map fun _ => none)
  | some (.table _ entries) | some (.inline entries) => some (names.map fun name => entries.lookup name)
  | some (.array items) => some (names.zipIdx.map fun (_, index) => items[index]?)
  | some (.tables items) => some (names.zipIdx.map fun (_, index) => items.reverse[index]?)
  | some (.scalar .date) => some (names.map fun _ => none)
  | some _ => none

/-- An entry that may be absent. -/
def entry? (default : α) (value? : Toml.Item → Option α) : Option Toml.Item → Option α
  | none => some default
  | some item => value? item

def ofEntries? (entries : Toml.Entries) : Option Settings := do
  match ← section? ["disabled", "cleanup"] (entries.lookup "transforms"),
    ← section? ["level"] (entries.lookup "logging") with
  | [disabled, cleanup], [level] =>
    return {
      disabled := ← entry? [] texts? disabled
      cleanup := ← entry? none (fun item => some <$> boolean? item) cleanup
      logLevel := ← entry? none (fun item => some <$> text? item) level }
  | _, _ => none

def ofText? (text : String) : Option Settings := Toml.parse? text >>= ofEntries?

end Settings
end OpGraph
