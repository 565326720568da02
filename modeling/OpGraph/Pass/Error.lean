import OpGraph.Graph.Edit

/-!
Why a pass cannot run, or was stopped.
-/

namespace OpGraph

inductive PassError where
  | missingAttribute (node : String) (kind : NodeKind) (name : String)
  | unsupportedOutputType (node : String) (kind : NodeKind) (outputType : ElementType)
  | disconnected (node : String) (port : UInt64)
  | invalidGraph (errors : List GraphError)
  | unknownPass (name : String)
  | graph (error : GraphError)
deriving DecidableEq

namespace PassError

def message : PassError → String
  | missingAttribute node kind name =>
    s!"{kind.display} node '{node}' is missing required attribute `{name}`"
  | unsupportedOutputType node kind outputType =>
    s!"{kind.display} node '{node}' has output type {outputType.display}, expected i32 or i64"
  | disconnected node port => s!"input port {port} of node '{node}' is not connected"
  | invalidGraph errors => "input graph is malformed: " ++ "; ".intercalate (errors.map GraphError.message)
  | unknownPass name => s!"unknown transform: {name}"
  | graph error => s!"graph error: {error.message}"

/-- The texts of the error and of the one it wraps. -/
def chain : PassError → List String
  | graph error => [(graph error).message, error.message]
  | error => [error.message]

end PassError

/-- An edit of a graph as a part of a pass. -/
def Edit.inPass (action : Edit GraphError α) : Edit PassError α := ExceptT.adapt .graph action

end OpGraph
