import OpGraph.Pass.Error
import OpGraph.Pass.Stats

/-!
Passes over a graph, and the ordered registry of those that run.
-/

namespace OpGraph

structure Pass where
  /-- The name in reports and settings. -/
  name : String
  /-- Whether the pass runs unless it is disabled by name. -/
  isEnabled : Bool := true
  run : Edit PassError PassStats

/-- How the nodes of one kind are replaced. -/
structure Replacement where
  kind : NodeKind
  /-- Whether a node can be replaced. -/
  check : Graph → Node → Except PassError Unit := fun _ _ => .ok ()
  replace : NodeId → Edit PassError PassStats

/-- Replaces the nodes of the kind in the order of their ids. All of them are checked before the
first one is replaced, so a failed check leaves the graph as it was. -/
def Replacement.replaceAll (replacement : Replacement) : Edit PassError PassStats := do
  let graph ← get
  let nodes := graph.nodesOfKind replacement.kind
  nodes.forM fun node => (replacement.check graph node : Except PassError Unit)
  let stats ← nodes.mapM fun node => replacement.replace node.id
  return PassStats.total stats

structure PassRegistry where
  /-- In the order in which they run. -/
  passes : List Pass := []
  disabled : List String := []

namespace PassRegistry

def register (registry : PassRegistry) (pass : Pass) : PassRegistry :=
  { registry with passes := registry.passes ++ [pass] }

def names (registry : PassRegistry) : List String := registry.passes.map Pass.name

/-- Disables a registered pass. -/
def disable (registry : PassRegistry) (name : String) : Except PassError PassRegistry :=
  if registry.names.contains name then .ok { registry with disabled := name :: registry.disabled }
  else .error (.unknownPass name)

/-- Whether some pass of this name runs. -/
def isEnabled (registry : PassRegistry) (name : String) : Bool :=
  !registry.disabled.contains name && registry.passes.any fun pass => pass.name == name && pass.isEnabled

/-- Runs the enabled passes in order and stops at the first failure. -/
def runAll (registry : PassRegistry) : Edit PassError (List (String × PassStats)) :=
  (registry.passes.filter fun pass => registry.isEnabled pass.name).mapM fun pass => do
    return (pass.name, ← pass.run)

end PassRegistry
end OpGraph
