import OpGraph.Graph.TopologicalOrder
import OpGraph.Graph.Validate
import OpGraph.Pass.Cleanup
import OpGraph.Pass.RankDecomposition
import OpGraph.Pass.Report

/-!
The front phase: the input is validated, the passes run, dead nodes are removed, and the outcome has
to be acyclic.
-/

namespace OpGraph

structure FrontPhase where
  registry : PassRegistry
  /-- Whether nodes that feed no result are removed. -/
  cleanup : Bool := true

namespace FrontPhase

def standard [EdgeIdSupply] : FrontPhase := { registry := .frontPhase }

def checkValid : Edit PassError Unit := do
  let errors := (← get).validationErrors
  unless errors.isEmpty do throw (.invalidGraph errors)

def checkAcyclic : Edit PassError Unit := do
  match (← get).topologicalOrder with
  | .error error => throw (.graph error)
  | .ok _ => return ()

/-- Removes dead nodes, if the phase does that. -/
def cleanUp (phase : FrontPhase) : Edit PassError (Option PassStats) :=
  if phase.cleanup then some <$> Graph.removeDeadNodes.inPass else pure none

/-- The phase as an edit; the report leaves the time to whoever measures it. -/
def edit (phase : FrontPhase) : Edit PassError FrontPhaseReport := do
  let initial ← get
  checkValid
  let passes ← phase.registry.runAll
  let cleanup ← phase.cleanUp
  checkAcyclic
  let final ← get
  return {
    durationMs := 0
    initialNodeCount := initial.nodeCount
    finalNodeCount := final.nodeCount
    passes
    cleanup }

/-- The transformed graph and the report on it. -/
def run (phase : FrontPhase) (graph : Graph) : Except PassError (Graph × FrontPhaseReport) :=
  match graph.edit phase.edit with
  | (.ok report, graph) => .ok (graph, report)
  | (.error error, _) => .error error

end FrontPhase
end OpGraph
