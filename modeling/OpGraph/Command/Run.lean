import OpGraph.Command.Arguments
import OpGraph.Command.Host
import OpGraph.Command.Settings
import OpGraph.Container.Basic
import OpGraph.Graph.Fingerprint
import OpGraph.Graph.Summary
import OpGraph.Hex
import OpGraph.Pass.FrontPhase

/-!
The commands. Every one of them reads the settings first; what it prints before it fails stays
printed.
-/

namespace OpGraph

/-- How a graph is stored in a file; the extension of the file says it. -/
inductive GraphFormat where
  | json
  | container
deriving DecidableEq

def GraphFormat.ofPath (path : String) : GraphFormat :=
  match Path.extension? path with
  | some extension => if extension.toLower == "json" then .json else .container
  | none => .container

inductive CommandError where
  | reading (path : String) (error : FileError)
  | writing (path : String) (error : FileError)
  | settings (path : String)
  | graphText (path : String) (error : Graph.LoadError)
  | container (path : String) (error : ContainerError)
  | disabling (name : String) (error : PassError)
  | registry (error : PassError)
  | frontPhase (path : String) (error : PassError)
deriving DecidableEq

namespace CommandError

/-- The texts of an error in a container and of those it wraps. -/
def containerChain (error : ContainerError) : List String :=
  match error with
  | .payload (.refused cause) => [error.message, cause.message]
  | error => [error.message]

/-- What went wrong, from the outside in. -/
def chain : CommandError → List String
  | reading path error => [s!"reading {path}", error.message]
  | writing path error => [s!"writing {path}", error.message]
  | settings path => [s!"parsing {path}", "malformed TOML"]
  | graphText path error => [s!"parsing {path}", error.message]
  | container path error => s!"parsing {path}" :: containerChain error
  | disabling name error => s!"disabling pass '{name}'" :: error.chain
  | registry error => error.chain
  | frontPhase path error => s!"front phase failed on {path}" :: error.chain

def message (error : CommandError) : String := ": ".intercalate error.chain

end CommandError

namespace Command

variable {m : Type → Type} [Monad m] [Host m]

abbrev Action (m : Type → Type) := ExceptT CommandError m

def printLine (line : String) : Action m Unit := ExceptT.lift (Host.print (line ++ "\n"))

def readBytes (path : String) : Action m Bytes := do
  match ← ExceptT.lift (Host.read path) with
  | .ok bytes => return bytes
  | .error error => throw (.reading path error)

/-! ## Settings -/

def loadSettings (path : String) : Action m Settings := do
  match Utf8.decode? (← readBytes path) with
  | none => throw (.reading path .invalidUtf8)
  | some text =>
    match Settings.ofText? text with
    | some settings => return settings
    | none => throw (.settings path)

/-- The first of the candidates that is a file. -/
def firstFile? : List String → Action m (Option String)
  | [] => return none
  | path :: rest => do
    if ← ExceptT.lift (Host.isFile path) then return some path else firstFile? rest

/-- The named settings, or those in the nearest directory upwards that has some, or the defaults. -/
def resolveSettings (named : Option String) : Action m Settings := do
  match named with
  | some path => loadSettings path
  | none =>
    let directory ← ExceptT.lift Host.workingDirectory
    let candidates := (Path.ancestors directory).map fun ancestor => Path.join ancestor Settings.fileName
    match ← firstFile? candidates with
    | some path => loadSettings path
    | none => return {}

/-! ## Graph files -/

def parseJson (path : String) (bytes : Bytes) : Action m Graph :=
  match Graph.ofBytes bytes with
  | .ok graph => return graph
  | .error error => throw (.graphText path error)

def parseContainer (path : String) (bytes : Bytes) : Action m Container :=
  match Container.ofBytes bytes with
  | .ok container => return container
  | .error error => throw (.container path error)

def loadGraph (path : String) : Action m Graph := do
  let bytes ← readBytes path
  match GraphFormat.ofPath path with
  | .json => parseJson path bytes
  | .container => return (← parseContainer path bytes).graph

/-- The bytes of a graph in a file; the JSON is indented. -/
def graphBytes (format : GraphFormat) (graph : Graph) : Bytes :=
  match format with
  | .json => Utf8.encode graph.toJson.indented
  | .container => (Container.ofGraph graph).toBytes

def saveGraph (path : String) (graph : Graph) : Action m Unit := do
  match ← ExceptT.lift (Host.write path (graphBytes (.ofPath path) graph)) with
  | .ok () => return ()
  | .error error => throw (.writing path error)

/-! ## Commands -/

/-- A text filled up with blanks to a width. -/
def padRight (width : Nat) (text : String) : String :=
  text ++ String.ofList (List.replicate (width - text.length) ' ')

def frontPhase [EdgeIdSupply] (settings : Settings) (arguments : TransformArguments) :
    Except CommandError FrontPhase := do
  let names := settings.disabled ++ arguments.disabled
  let registry ← names.foldlM (fun (registry : PassRegistry) name =>
    (registry.disable name).mapError (.disabling name)) .frontPhase
  return { registry, cleanup := settings.cleanupEnabled && !arguments.noCleanup }

def transform [EdgeIdSupply] (settings : Settings) (arguments : TransformArguments) :
    Action m Unit := do
  let graph ← loadGraph arguments.input
  let phase ← frontPhase settings arguments
  let start ← ExceptT.lift Host.milliseconds
  match phase.run graph with
  | .error error => throw (.frontPhase arguments.input error)
  | .ok (graph, report) =>
    let stop ← ExceptT.lift Host.milliseconds
    saveGraph arguments.output graph
    printLine { report with durationMs := stop - start }.display
    printLine s!"Wrote {arguments.output}"

def summaryLines (graph : Graph) : List String :=
  let summary := graph.summary
  [ s!"Hash:    {Hex.encode graph.fingerprint}",
    s!"Nodes:   {summary.nodes}",
    s!"Edges:   {summary.edges}",
    s!"Valid:   {summary.isValid}",
    "",
    "--- Node kinds ---" ]
  ++ summary.kinds.toList.map (fun (kind, count) => s!"  {padRight 12 kind} {count}")
  ++ if summary.pending.isEmpty then []
    else
      ["", s!"--- Awaiting front phase ({summary.pending.length}) ---"] ++ summary.pending.map ("  " ++ ·)

def inspect (input : String) : Action m Unit := do
  match GraphFormat.ofPath input with
  | .json =>
    printLine "Format:  JSON"
    let graph ← loadGraph input
    (summaryLines graph).forM printLine
  | .container =>
    let container ← parseContainer input (← readBytes input)
    let constants := container.flags.has FormatFlags.hasConstants
    let static := container.flags.has FormatFlags.hasStaticShapes
    printLine s!"Format:  MOIR {container.version.display}"
    printLine s!"Flags:   constants={constants} static_shapes={static}"
    (summaryLines container.graph).forM printLine

/-- Lists the passes in the order in which they run. -/
def passes [EdgeIdSupply] (settings : Settings) : Action m Unit := do
  let registry ← ((settings.disabled.foldlM PassRegistry.disable .frontPhase).mapError .registry :
    Except CommandError PassRegistry)
  printLine "Front-phase passes:"
  registry.names.forM fun name => do
    let state := if registry.isEnabled name then "enabled" else "disabled"
    printLine s!"  {padRight 24 name} {state}"

def versionText : String := "mofront 0.1.0"

def helpText : Option String → List String
  | some "transform" => [
    "Run the front-phase passes over a graph", "",
    "Usage: mofront transform [OPTIONS] --input <INPUT> --output <OUTPUT>", "",
    "Options:",
    "      --input <INPUT>    Input graph (.json or MOIR container)",
    "      --output <OUTPUT>  Output graph (.json or MOIR container)",
    "      --disable <PASS>   Skip a pass by name (repeatable)",
    "      --no-cleanup       Keep nodes that no longer feed an output",
    "      --config <CONFIG>  Configuration file (default: nearest mofront.toml)",
    "  -h, --help             Print help"]
  | some "inspect" => [
    "Show statistics about a graph file", "",
    "Usage: mofront inspect --input <INPUT>", "",
    "Options:",
    "      --input <INPUT>  Graph file (.json or MOIR container)",
    "  -h, --help           Print help"]
  | some "passes" => [
    "List the front-phase passes", "",
    "Usage: mofront passes", "",
    "Options:",
    "  -h, --help  Print help"]
  | some "help" => [
    "Print this message or the help of the given subcommand(s)", "",
    "Usage: mofront help [COMMAND]...", "",
    "Arguments:",
    "  [COMMAND]...  Print help for the subcommand(s)"]
  | _ => [
    "Model optimizer front phase", "",
    "Usage: mofront <COMMAND>", "",
    "Commands:",
    "  transform  Run the front-phase passes over a graph",
    "  inspect    Show statistics about a graph file",
    "  passes     List the front-phase passes",
    "  help       Print this message or the help of the given subcommand(s)", "",
    "Options:",
    "  -h, --help     Print help",
    "  -V, --version  Print version"]

def run [EdgeIdSupply] : Invocation → Action m Unit
  | .version => printLine versionText
  | .help command => (helpText command).forM printLine
  | .transform arguments => do transform (← resolveSettings arguments.config) arguments
  | .inspect input => do
    discard <| resolveSettings none
    inspect input
  | .passes => do passes (← resolveSettings none)

end Command
end OpGraph
