import OpGraph.Graph.Basic
import OpGraph.Json.Writer
import OpGraph.Node.Text

/-!
Comparison of two graphs up to ids and names. Both are walked backwards from one output node in
lock-step: the producers of equal input ports are paired, and every pair of nodes has to agree. The
walk goes on after a difference, so that all of them are found.
-/

namespace OpGraph.Graph

structure CompareOptions where
  /-- Whether output types, shapes, values and attributes of all nodes count. -/
  checkAttributes : Bool := false
  /-- Attributes that never count. -/
  ignored : List String := []

/-- What a node and its counterpart in the reference do not agree on. -/
inductive Aspect where
  | kind (found expected : NodeKind)
  | value (found expected : Option Tensor)
  | outputType (found expected : Option ElementType)
  | shape (found expected : Option Shape)
  | property (key : String) (found expected : Option OrderedJson)
  | consumers (found expected : Nat)
  | inputs (found expected : List UInt64)
deriving DecidableEq

inductive Difference where
  | missing (inReference : Bool) (id : NodeId)
  | nodes (id counterpart : NodeId) (aspect : Aspect)
  /-- An input is fed from different output ports. -/
  | outputPort (input : Port) (found expected : Port)
  /-- A node is met with a second counterpart. -/
  | twoCounterparts (id first second : NodeId)
  /-- A node of the reference is met with a second counterpart. -/
  | referenceTwoCounterparts (id first second : NodeId)
deriving DecidableEq

/-! ## Texts -/

def describe (display : α → String) (value : Option α) : String := (display <$> value).getD "unset"

def describeShape : Option Shape → String
  | none => "None"
  | some shape => s!"Some({shape.display})"

def Aspect.message (id counterpart : NodeId) : Aspect → String
  | kind found expected => s!"'{id}' is {found.display}, reference '{counterpart}' is {expected.display}"
  | value found expected =>
    let found := describe Tensor.display found
    let expected := describe Tensor.display expected
    s!"value of '{id}' is {found}, reference '{counterpart}' has {expected}"
  | outputType found expected =>
    let found := describe ElementType.display found
    let expected := describe ElementType.display expected
    s!"output_type of '{id}' is {found}, reference '{counterpart}' has {expected}"
  | shape found expected =>
    let found := describeShape found
    let expected := describeShape expected
    s!"shape of '{id}' is {found}, reference '{counterpart}' has {expected}"
  | property key found expected =>
    let found := describe (fun value => value.json.compact) found
    let expected := describe (fun value => value.json.compact) expected
    s!"attribute '{key}' of '{id}' is {found}, reference '{counterpart}' has {expected}"
  | consumers found expected =>
    s!"'{id}' has {found} consumer(s), reference '{counterpart}' has {expected}"
  | inputs found expected =>
    let found := Shape.display found
    let expected := Shape.display expected
    s!"'{id}' has connected inputs {found}, reference '{counterpart}' has {expected}"

def Difference.message : Difference → String
  | missing inReference id =>
    let graph := if inReference then "reference graph" else "graph"
    s!"{graph} has no node '{id}'"
  | nodes id counterpart aspect => aspect.message id counterpart
  | outputPort input found expected =>
    s!"input {input.index} of '{input.node}' comes from output {found.index} of '{found.node}', "
      ++ s!"reference uses output {expected.index} of '{expected.node}'"
  | twoCounterparts id first second =>
    s!"'{id}' is matched to both '{first}' and '{second}' in the reference"
  | referenceTwoCounterparts id first second =>
    s!"reference '{id}' is matched to both '{first}' and '{second}'"

def differencesMessage (differences : List Difference) : String :=
  "graphs differ:\n  " ++ "\n  ".intercalate (differences.map Difference.message)

/-! ## Nodes -/

/-- Both absent, or both there and equal. -/
def optionEqBy (same : α → α → Bool) : Option α → Option α → Bool
  | none, none => true
  | some first, some second => same first second
  | _, _ => false

def attributeDifferences (options : CompareOptions) (found expected : Attributes) : List Aspect :=
  let keys := found.keys ++ expected.keys.filter fun key => !found.contains key
  (keys.filter fun key => !options.ignored.contains key).filterMap fun key =>
    if optionEqBy OrderedJson.numEq found[key]? expected[key]? then none
    else some (.property key found[key]? expected[key]?)

/-- What two nodes do not agree on. Nodes of different kinds are not compared further; the value of a
constant always counts. -/
def nodeDifferences (options : CompareOptions) (found expected : Node) : List Aspect :=
  if found.kind ≠ expected.kind then [.kind found.kind expected.kind]
  else
    let checkValue := found.kind = .const ∨ options.checkAttributes
    let value :=
      if checkValue ∧ !optionEqBy Tensor.numEq found.value expected.value then
        [Aspect.value found.value expected.value]
      else []
    if !options.checkAttributes then value
    else
      value
        ++ (if found.outputType = expected.outputType then []
          else [.outputType found.outputType expected.outputType])
        ++ (if found.shape = expected.shape then [] else [.shape found.shape expected.shape])
        ++ attributeDifferences options found.attributes expected.attributes

/-! ## The walk -/

/-- The pairs met so far in both directions, those still to be compared, and what was found. -/
structure Pairing where
  forward : Std.ExtTreeMap NodeId NodeId
  backward : Std.ExtTreeMap NodeId NodeId
  waiting : List (NodeId × NodeId)
  differences : List Difference

namespace Pairing

/-- The walk starts with one node in both graphs. -/
def start (last : NodeId) : Pairing := ⟨.ofList [(last, last)], .ofList [(last, last)], [(last, last)], []⟩

def report (pairing : Pairing) (differences : List Difference) : Pairing :=
  { pairing with differences := pairing.differences ++ differences }

/-- The pairing with one more pair, which waits. -/
def insert (pairing : Pairing) (id counterpart : NodeId) : Pairing :=
  { pairing with
    forward := pairing.forward.insert id counterpart
    backward := pairing.backward.insert counterpart id
    waiting := pairing.waiting ++ [(id, counterpart)] }

/-- Pairs two producers, unless one of them has a counterpart already. -/
def pair (pairing : Pairing) (id counterpart : NodeId) : Pairing :=
  match pairing.forward[id]?, pairing.backward[counterpart]? with
  | none, none => pairing.insert id counterpart
  | some paired, other =>
    if paired ≠ counterpart then pairing.report [.twoCounterparts id paired counterpart]
    else match other with
      | some paired =>
        if paired ≠ id then pairing.report [.referenceTwoCounterparts counterpart paired id] else pairing
      | none => pairing
  | none, some paired =>
    if paired ≠ id then pairing.report [.referenceTwoCounterparts counterpart paired id] else pairing

/-- Compares and pairs the producers of one input port. -/
def meetInput (graph reference : Graph) (id counterpart : NodeId) (pairing : Pairing) (index : UInt64) :
    Pairing :=
  match graph.producer? ⟨id, index⟩, reference.producer? ⟨counterpart, index⟩ with
  | some found, some expected =>
    let pairing :=
      if found.index = expected.index then pairing
      else pairing.report [.outputPort ⟨id, index⟩ found expected]
    pairing.pair found.node expected.node
  | _, _ => pairing

/-- What a pair of nodes does not agree on, its producers apart. -/
def aspects (graph reference : Graph) (options : CompareOptions) (node expected : Node) : List Aspect :=
  let consumers := (graph.outgoing[node.id]?.getD []).length
  let expectedConsumers := (reference.outgoing[expected.id]?.getD []).length
  let inputs := graph.connectedInputs node.id
  let expectedInputs := reference.connectedInputs expected.id
  nodeDifferences options node expected
    ++ (if consumers = expectedConsumers then [] else [.consumers consumers expectedConsumers])
    ++ (if inputs = expectedInputs then [] else [.inputs inputs expectedInputs])

/-- Compares a pair of nodes; their producers are met only where the same inputs are connected. -/
def meet (graph reference : Graph) (options : CompareOptions) (pairing : Pairing)
    (id counterpart : NodeId) : Pairing :=
  match graph.node? id, reference.node? counterpart with
  | some node, some expected =>
    let pairing := pairing.report ((aspects graph reference options node expected).map (.nodes id counterpart))
    let inputs := graph.connectedInputs id
    if inputs = reference.connectedInputs counterpart then
      inputs.foldl (meetInput graph reference id counterpart) pairing
    else pairing
  | _, _ => pairing

def walk (graph reference : Graph) (options : CompareOptions) : (pairs : Nat) → Pairing → Pairing
  | 0, pairing => pairing
  | pairs + 1, pairing =>
    match pairing.waiting with
    | [] => pairing
    | (id, counterpart) :: waiting =>
      walk graph reference options pairs
        ({ pairing with waiting } |>.meet graph reference options id counterpart)

end Pairing

/-- All differences between what feeds a node in two graphs. Every pair but the first comes from an
edge of the graph, and none waits twice, which bounds the walk. -/
def differences (graph reference : Graph) (last : NodeId) (options : CompareOptions) : List Difference :=
  let missing := [(false, graph), (true, reference)].filterMap fun (inReference, side) =>
    if side.hasNode last then none else some (Difference.missing inReference last)
  if !missing.isEmpty then missing
  else ((Pairing.start last).walk graph reference options (graph.edgeCount + 1)).differences

end OpGraph.Graph
