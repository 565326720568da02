import OpGraph.Digest.Sha256
import OpGraph.Graph.Basic
import OpGraph.Json.Writer
import OpGraph.Node.Text

/-!
Digests of content. The fingerprint of a graph covers its nodes and which ports are joined, but
neither edge ids nor the order of insertion.
-/

namespace OpGraph

/-- The digest of the compact text of a value. -/
def Json.digest (value : Json) : Bytes := Sha256.digest (Utf8.encode value.compact)

namespace Graph

/-- The joined ports, ascending. -/
def connections (graph : Graph) : List (Port × Port) :=
  (graph.edgeList.map fun edge => (edge.source, edge.target)).mergeSort fun first second =>
    ((compare first.1 second.1).then (compare first.2 second.2)).isLE

/-- What the fingerprint covers: the nodes by id, then the joined ports. -/
def structureJson (graph : Graph) : Json :=
  .array [
    .array (graph.nodeList.map Node.toJson),
    .array (graph.connections.map fun (source, target) => .array [source.toJson, target.toJson])]

def fingerprint (graph : Graph) : Bytes := graph.structureJson.digest

end Graph
end OpGraph
