import OpGraph.Graph.Basic

/-!
What the header of a container says about its graph: the version of the format, and flags.
-/

namespace OpGraph

structure FormatVersion where
  major : UInt8
  minor : UInt8
  patch : UInt8
deriving DecidableEq

namespace FormatVersion

/-- The version that is written. -/
def current : FormatVersion := ⟨0, 1, 0⟩

/-- Before 1.0 a version can be read if its major number is the current one and its minor number is
not newer. -/
def isCompatible (version : FormatVersion) : Bool :=
  version.major == current.major && version.minor ≤ current.minor

def display (version : FormatVersion) : String := s!"{version.major}.{version.minor}.{version.patch}"

end FormatVersion

structure FormatFlags where
  bits : UInt8
deriving DecidableEq

namespace FormatFlags

def none : FormatFlags := ⟨0⟩

/-- The graph has constants. -/
def hasConstants : UInt8 := 0x01

/-- The graph has parameters, and each has a static shape. -/
def hasStaticShapes : UInt8 := 0x02

/-- Whether one of the bits of a mask is set. -/
def has (flags : FormatFlags) (mask : UInt8) : Bool := flags.bits &&& mask != 0

def set (flags : FormatFlags) (mask : UInt8) : FormatFlags := ⟨flags.bits ||| mask⟩

def setIf (condition : Bool) (mask : UInt8) (flags : FormatFlags) : FormatFlags :=
  if condition then flags.set mask else flags

def ofGraph (graph : Graph) : FormatFlags :=
  let parameters := graph.nodesOfKind .parameter
  let static := !parameters.isEmpty && parameters.all fun node => node.shape.isSome
  none |> setIf (!(graph.nodesOfKind .const).isEmpty) hasConstants |> setIf static hasStaticShapes

end FormatFlags
end OpGraph
