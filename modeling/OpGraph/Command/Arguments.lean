/-!
The arguments of the command line. An option is `--name value` or `--name=value`; one that is not
repeatable may be given once. A value does not start with a hyphen unless it is one, or follows an
equals sign.
-/

namespace OpGraph

structure TransformArguments where
  input : String
  output : String
  /-- The passes to leave out. -/
  disabled : List String
  noCleanup : Bool
  /-- The settings file. -/
  config : Option String
deriving DecidableEq

inductive Invocation where
  | transform (arguments : TransformArguments)
  | inspect (input : String)
  | passes
  | version
  /-- Help on a command, or on all of them. -/
  | help (command : Option String)
deriving DecidableEq

namespace Arguments

/-- How an option is given. -/
inductive Shape where
  | switch
  /-- A path, which is not empty. -/
  | path
  /-- A text, any number of times. -/
  | texts
deriving DecidableEq

/-- The options that were found, in order, with their values. -/
abbrev Found := List (String × String)

def transformOptions : List (String × Shape) :=
  [("input", .path), ("output", .path), ("disable", .texts), ("no-cleanup", .switch), ("config", .path)]

def inspectOptions : List (String × Shape) := [("input", .path)]

/-- The name of a long option and the value after its equals sign. -/
def long? (argument : String) : Option (String × Option String) :=
  match argument.toList with
  | '-' :: '-' :: chars =>
    match chars.span (· != '=') with
    | (name, '=' :: value) => some (String.ofList name, some (String.ofList value))
    | (name, _) => some (String.ofList name, none)
  | _ => none

/-- The first letter after a single hyphen; what it asks for is done before the letters after it are
read. -/
def short? (argument : String) : Option Char :=
  match argument.toList with
  | '-' :: letter :: _ => if letter = '-' then none else some letter
  | _ => none

def isValue (argument : String) : Bool := argument == "-" || !argument.startsWith "-"

def accept? (shape : Shape) (name value : String) (found : Found) : Option Found :=
  if shape = .path ∧ value.isEmpty then none
  else if shape ≠ .texts ∧ (found.lookup name).isSome then none
  else some (found ++ [(name, value)])

/-- Whether the options ask for help instead, or else which ones were found. -/
inductive Outcome where
  | help
  | found (options : Found)

/-- Reads options up to the end, or up to `--`, after which nothing may stand. -/
def options? (known : List (String × Shape)) (found : Found) : List String → Option Outcome
  | [] => some (.found found)
  | ["--"] => some (.found found)
  | "--help" :: _ => some .help
  | argument :: rest =>
    match long? argument with
    | none => if short? argument = some 'h' then some .help else none
    | some (name, attached) =>
      match known.lookup name, attached, rest with
      | none, _, _ => none
      | some .switch, some _, _ => none
      | some .switch, none, rest => accept? .switch name "" found >>= (options? known · rest)
      | some shape, some value, rest => accept? shape name value found >>= (options? known · rest)
      | some _, none, [] => none
      | some shape, none, value :: rest =>
        if isValue value then accept? shape name value found >>= (options? known · rest) else none

/-- Runs the options of a command through; help on it takes precedence. -/
def withOptions (command : String) (known : List (String × Shape)) (rest : List String)
    (build : Found → Option Invocation) : Option Invocation := do
  match ← options? known [] rest with
  | .help => return .help (some command)
  | .found found => build found

def transform? (found : Found) : Option Invocation := do
  return .transform {
    input := ← found.lookup "input"
    output := ← found.lookup "output"
    disabled := (found.filter fun option => option.1 == "disable").map Prod.snd
    noCleanup := (found.lookup "no-cleanup").isSome
    config := found.lookup "config" }

/-- What the arguments ask for, if they can be accepted. -/
def parse? : List String → Option Invocation
  | "--version" :: _ => some .version
  | "--help" :: _ | ["help"] => some (.help none)
  | ["help", command] =>
    if ["transform", "inspect", "passes", "help"].contains command then some (.help (some command))
    else none
  | "transform" :: rest => withOptions "transform" transformOptions rest transform?
  | "inspect" :: rest =>
    withOptions "inspect" inspectOptions rest fun found => .inspect <$> found.lookup "input"
  | "passes" :: rest => withOptions "passes" [] rest fun _ => some .passes
  | argument :: _ =>
    match short? argument with
    | some 'V' => some .version
    | some 'h' => some (.help none)
    | _ => none
  | [] => none

end Arguments
end OpGraph
