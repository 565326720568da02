import OpGraph.Json.Value

/-!
What a pass did to a graph, in numbers.
-/

namespace OpGraph

structure PassStats where
  /-- The matches that were replaced. -/
  matched : Nat := 0
  nodesAdded : Nat := 0
  nodesRemoved : Nat := 0
  edgesAdded : Nat := 0
  edgesRemoved : Nat := 0
deriving DecidableEq

namespace PassStats

instance : Add PassStats where
  add first second := {
    matched := first.matched + second.matched
    nodesAdded := first.nodesAdded + second.nodesAdded
    nodesRemoved := first.nodesRemoved + second.nodesRemoved
    edgesAdded := first.edgesAdded + second.edgesAdded
    edgesRemoved := first.edgesRemoved + second.edgesRemoved }

def total (stats : List PassStats) : PassStats := stats.foldl (· + ·) {}

def toJson (stats : PassStats) : Json :=
  .object [
    ("matches", .ofNat stats.matched),
    ("nodes_added", .ofNat stats.nodesAdded),
    ("nodes_removed", .ofNat stats.nodesRemoved),
    ("edges_added", .ofNat stats.edgesAdded),
    ("edges_removed", .ofNat stats.edgesRemoved)]

end PassStats
end OpGraph
