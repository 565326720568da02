import OpGraph.Edge.Id
import OpGraph.Node.Basic

/-!
Edges: each binds an output port of its producer to an input port of its consumer.
-/

namespace OpGraph

/-- An output or an input port of a node, by its number. -/
@[ext] structure Port where
  node : NodeId
  index : UInt64
deriving DecidableEq

namespace Port

/-- Ports are ordered by node, then by number. -/
instance : Ord Port := ⟨compareLex (compareOn node) (compareOn index)⟩

instance : Std.TransOrd Port :=
  inferInstanceAs (Std.TransCmp (compareLex (compareOn node) (compareOn index)))

instance : Std.LawfulEqOrd Port where
  compare_self := compareLex_eq_eq.mpr
    ⟨Std.ReflOrd.compare_self (α := String), Std.ReflOrd.compare_self (α := UInt64)⟩
  eq_of_compare := by
    rintro ⟨node, index⟩ ⟨otherNode, otherIndex⟩ same
    have parts := compareLex_eq_eq.mp same
    have sameNode : node = otherNode := Std.LawfulEqOrd.eq_of_compare (α := String) parts.1
    have sameIndex : index = otherIndex := Std.LawfulEqOrd.eq_of_compare (α := UInt64) parts.2
    rw [sameNode, sameIndex]

def toJson (port : Port) : Json := .array [.string port.node, .ofUInt64 port.index]

def ofDocument? (document : Document) : Option Port := do
  match ← document.toItems? with
  | [node, index] => return ⟨← node.toText?, ← index.toUInt64?⟩
  | _ => none

end Port

structure Edge where
  id : EdgeId
  /-- The producer and its output port. -/
  source : Port
  /-- The consumer and its input port. -/
  target : Port
deriving DecidableEq

namespace Edge

def display (edge : Edge) : String :=
  s!"Edge({edge.source.node} port {edge.source.index} -> {edge.target.node} port {edge.target.index})"

/-- Edges ordered by target, then by source. -/
def targetFirst (first second : Edge) : Bool :=
  ((compare first.target second.target).then (compare first.source second.source)).isLE

def toJson (edge : Edge) : Json :=
  .object [("id", edge.id.toJson), ("source", edge.source.toJson), ("target", edge.target.toJson)]

def ofDocument? (document : Document) : Option Edge := do
  match ← document.toFields? ["id", "source", "target"] with
  | [id, source, target] =>
    return {
      id := ← Document.required? EdgeId.ofDocument? id
      source := ← Document.required? Port.ofDocument? source
      target := ← Document.required? Port.ofDocument? target }
  | _ => none

end Edge
end OpGraph
