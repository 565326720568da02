import OpGraph.Pass.Stats

/-!
The report on a run of the front phase.
-/

namespace OpGraph

structure FrontPhaseReport where
  durationMs : Nat
  initialNodeCount : Nat
  finalNodeCount : Nat
  /-- The passes that ran, in order. -/
  passes : List (String × PassStats)
  /-- What the removal of dead nodes did, if it ran. -/
  cleanup : Option PassStats
deriving DecidableEq

namespace FrontPhaseReport

def totalMatches (report : FrontPhaseReport) : Nat := (PassStats.total (report.passes.map Prod.snd)).matched

def passLine (name : String) (stats : PassStats) : String :=
  s!"  {name}: {stats.matched} match(es), +{stats.nodesAdded} nodes, -{stats.nodesRemoved} nodes, "
    ++ s!"+{stats.edgesAdded} edges, -{stats.edgesRemoved} edges"

def lines (report : FrontPhaseReport) : List String :=
  [ "=== Front Phase Report ===",
    s!"Duration: {report.durationMs} ms",
    s!"Nodes: {report.initialNodeCount} -> {report.finalNodeCount}",
    "",
    s!"--- Passes ({report.passes.length}) ---" ]
  ++ report.passes.map (fun (name, stats) => passLine name stats)
  ++ match report.cleanup with
    | none => []
    | some stats => ["", "--- Cleanup ---", s!"  {stats.nodesRemoved} dead node(s) removed"]

def display (report : FrontPhaseReport) : String := String.join (report.lines.map (· ++ "\n"))

def passJson (name : String) (stats : PassStats) : Json :=
  .object [("name", .string name), ("stats", stats.toJson)]

def toJson (report : FrontPhaseReport) : Json :=
  .object [
    ("duration_ms", .ofNat report.durationMs),
    ("initial_node_count", .ofNat report.initialNodeCount),
    ("final_node_count", .ofNat report.finalNodeCount),
    ("passes", .array (report.passes.map fun (name, stats) => passJson name stats)),
    ("cleanup", .ofOption PassStats.toJson report.cleanup)]

end FrontPhaseReport
end OpGraph
