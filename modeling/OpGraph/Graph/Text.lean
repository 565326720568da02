import OpGraph.Graph.Edit
import OpGraph.Node.Text

/-!
Graphs in files. Only nodes and edges are written; the order in which they stand in a text has no
meaning, and here it is that of their ids. A graph is read by inserting its nodes and edges into an
empty one, in an order that does not depend on the text, so a graph that was read is well-formed, and
its adjacency lists are determined by its content.
-/

namespace OpGraph.Graph

/-- Adds nodes in the order of their ids, then edges in the order of their targets and sources. -/
def addParts (nodes : List Node) (edges : List Edge) : Edit GraphError Unit := do
  (nodes.mergeSort fun first second => first.id ≤ second.id).forM fun node => discard <| addNode node
  (edges.mergeSort Edge.targetFirst).forM fun edge => discard <| addEdge edge

/-- The graph of these nodes and edges. -/
def ofParts (nodes : List Node) (edges : List Edge) : Except GraphError Graph :=
  match empty.edit (addParts nodes edges) with
  | (.ok (), graph) => .ok graph
  | (.error error, _) => .error error

def nodeMember (entry : NodeId × Node) : String × Json := (entry.1, entry.2.toJson)

def edgeMember (entry : EdgeId × Edge) : String × Json := (entry.1.text, entry.2.toJson)

/-- The nodes and edges of a graph, in the order in which they are listed. -/
def listingJson (nodes : List (NodeId × Node)) (edges : List (EdgeId × Edge)) : Json :=
  .object [("nodes", .object (nodes.map nodeMember)), ("edges", .object (edges.map edgeMember))]

def toJson (graph : Graph) : Json := listingJson graph.nodes.toList graph.edges.toList

/-- The values of an object by their keys. Of a repeated key the last value counts. -/
def tableOfDocument? [Ord κ] (key? : String → Option κ) (value? : Document → Option α)
    (document : Document) : Option (Std.ExtTreeMap κ α) := do
  let entries ← (← document.toMembers?).mapM fun (key, value) => return (← key? key, ← value? value)
  return .ofList entries

/-- The nodes and edges of a graph in a file. Only the ids inside the values count, the keys do not. -/
def partsOfDocument? (document : Document) : Option (List Node × List Edge) := do
  match ← document.toFields? ["nodes", "edges"] with
  | [nodes, edges] =>
    let nodes ← Document.defaulted? ∅ (tableOfDocument? some (Node.ofDocument? 2)) nodes
    let edges ← Document.defaulted? ∅ (tableOfDocument? EdgeId.ofText? Edge.ofDocument?) edges
    return (nodes.values, edges.values)
  | _ => none

/-- Why a text holds no graph: it is no text of a graph, or the graph itself is refused. -/
inductive LoadError where
  | malformed
  | refused (error : GraphError)
deriving DecidableEq

def LoadError.message : LoadError → String
  | malformed => "malformed JSON"
  | refused error => error.message

/-- Reads a graph. Its content is judged before what follows it. -/
def ofBytes (bytes : Bytes) : Except LoadError Graph :=
  match Document.leading? bytes with
  | none => .error .malformed
  | some (document, rest) =>
    match partsOfDocument? document with
    | none => .error .malformed
    | some (nodes, edges) =>
      match ofParts nodes edges with
      | .error error => .error (.refused error)
      | .ok graph => if rest.all Document.isBlank then .ok graph else .error .malformed

end OpGraph.Graph
