import OpGraph.Graph.Edit
import OpGraph.Graph.PortSpec

/-!
Graphs built from a catalog of nodes and a list of connections. One catalog can serve several
graphs: `buildConnected` takes only the nodes that a connection mentions.
-/

namespace OpGraph

structure GraphBuilder where
  /-- The registered nodes, in the order in which their ids came up. -/
  catalog : List Node := []
  /-- The place of each registered id in the catalog. -/
  slots : Std.ExtTreeMap NodeId Nat := ∅
  /-- Output and input ports to be joined, in the order they were recorded. -/
  connections : List (Port × Port) := []

namespace GraphBuilder

/-- Registers a node in place of one with the same id. -/
def node (builder : GraphBuilder) (node : Node) : GraphBuilder :=
  match builder.slots[node.id]? with
  | some slot => { builder with catalog := builder.catalog.set slot node }
  | none =>
    { builder with
      catalog := builder.catalog ++ [node]
      slots := builder.slots.insert node.id builder.catalog.length }

/-- Registers nodes one after another. -/
def nodes (builder : GraphBuilder) (nodes : List Node) : GraphBuilder := nodes.foldl node builder

/-- Records a connection, once both specs are read. -/
def record (source target : String) : ExceptT GraphError (StateM GraphBuilder) Unit := do
  let source ← PortSpec.parseSource source
  let target ← PortSpec.parseTarget target
  modify fun builder => { builder with connections := builder.connections ++ [(source, target)] }

/-- Runs `record`; the builder is the one that it leaves behind, also where a spec cannot be read. -/
def recordIn (builder : GraphBuilder) (source target : String) : Except GraphError Unit × GraphBuilder :=
  (record source target).run.run builder

def connect (builder : GraphBuilder) (source target : String) : Except GraphError GraphBuilder :=
  match builder.recordIn source target with
  | (.ok (), after) => .ok after
  | (.error error, _) => .error error

variable [EdgeIdSupply]

/-- Adds the registered nodes that are kept, then the connections. -/
def assemble (builder : GraphBuilder) (keep : NodeId → Bool) : Edit GraphError Unit := do
  (builder.catalog.filter fun node => keep node.id).forM fun node => discard <| Graph.addNode node
  builder.connections.forM fun (source, target) => do
    Graph.requireNode source.node
    Graph.requireNode target.node
    discard <| Graph.connect source target

def buildKeeping (builder : GraphBuilder) (keep : NodeId → Bool) : Except GraphError Graph :=
  match Graph.empty.edit (builder.assemble keep) with
  | (.ok (), graph) => .ok graph
  | (.error error, _) => .error error

/-- The graph of all registered nodes. -/
def build (builder : GraphBuilder) : Except GraphError Graph := builder.buildKeeping fun _ => true

/-- The graph of the registered nodes that take part in a connection. -/
def buildConnected (builder : GraphBuilder) : Except GraphError Graph :=
  let used := builder.connections.flatMap fun (source, target) => [source.node, target.node]
  builder.buildKeeping used.contains

end GraphBuilder
end OpGraph
