import OpGraph.Container.Header
import OpGraph.Digest.Sha256
import OpGraph.Graph.Text
import OpGraph.Json.Writer

/-!
The container format. A header of thirty-two bytes, with the magic bytes `MOIR`, the version, the
flags and three counts, precedes the JSON of a graph; the digest of all these bytes follows.
-/

namespace OpGraph

/-- A graph with the header it is stored under. -/
structure Container where
  version : FormatVersion
  flags : FormatFlags
  graph : Graph

inductive ContainerError where
  | tooSmall
  | invalidMagic
  | unsupportedVersion (version : FormatVersion)
  | hashMismatch
  | payload (error : Graph.LoadError)
  | countMismatch (what : String) (declared actual : Nat)
deriving DecidableEq

def ContainerError.message : ContainerError → String
  | tooSmall => "file too small to be a valid MOIR file"
  | invalidMagic => "invalid magic bytes: expected MOIR"
  | unsupportedVersion version => s!"unsupported format version {version.display}"
  | hashMismatch => "content hash mismatch: file is corrupted"
  | payload error => s!"serialization error: {error.message}"
  | countMismatch what declared actual => s!"header declares {declared} {what}, payload has {actual}"

namespace Container

def magic : Bytes := [0x4D, 0x4F, 0x49, 0x52]

def headerSize : Nat := 32

def digestSize : Nat := 32

/-- The low `width` bytes of a number, least significant first. -/
def littleEndian : (width : Nat) → Nat → Bytes
  | 0, _ => []
  | width + 1, value => UInt8.ofNat value :: littleEndian width (value / 256)

/-- The number whose bytes are given, least significant first. -/
def readLittleEndian : Bytes → Nat
  | [] => 0
  | byte :: rest => byte.toNat + 256 * readLittleEndian rest

/-- A graph under the current version, with the flags that fit it. -/
def ofGraph (graph : Graph) : Container := ⟨.current, .ofGraph graph, graph⟩

/-- The bytes that the digest covers, with some JSON of the graph as their payload. -/
def bodyWith (container : Container) (payload : Bytes) : Bytes :=
  magic ++ [container.version.major, container.version.minor, container.version.patch, container.flags.bits]
    ++ littleEndian 8 container.graph.nodeCount ++ littleEndian 8 container.graph.edgeCount
    ++ littleEndian 8 payload.length ++ payload

def toBytesWith (container : Container) (payload : Bytes) : Bytes :=
  container.bodyWith payload ++ Sha256.digest (container.bodyWith payload)

def payload (container : Container) : Bytes := Utf8.encode container.graph.toJson.compact

def toBytes (container : Container) : Bytes := container.toBytesWith container.payload

def slice (bytes : Bytes) (start size : Nat) : Bytes := (bytes.drop start).take size

def byteAt (bytes : Bytes) (index : Nat) : UInt8 := bytes.getD index 0

/-- Stops with an error unless a condition holds. -/
def require (condition : Prop) [Decidable condition] (error : ContainerError) : Except ContainerError Unit :=
  if condition then .ok () else .error error

def checkCount (what : String) (declared actual : Nat) : Except ContainerError Unit :=
  require (declared = actual) (.countMismatch what declared actual)

/-- Reads a container. The checks run from the header on; bytes after the digest are not looked at. -/
def ofBytes (bytes : Bytes) : Except ContainerError Container := do
  require (headerSize + digestSize ≤ bytes.length) .tooSmall
  require (bytes.take 4 = magic) .invalidMagic
  let version : FormatVersion := ⟨byteAt bytes 4, byteAt bytes 5, byteAt bytes 6⟩
  require version.isCompatible (.unsupportedVersion version)
  let payloadEnd := headerSize + readLittleEndian (slice bytes 24 8)
  require (payloadEnd + digestSize ≤ bytes.length) .tooSmall
  require (Sha256.digest (bytes.take payloadEnd) = slice bytes payloadEnd digestSize) .hashMismatch
  let graph ← (Graph.ofBytes ((bytes.take payloadEnd).drop headerSize)).mapError .payload
  checkCount "nodes" (readLittleEndian (slice bytes 8 8)) graph.nodeCount
  checkCount "edges" (readLittleEndian (slice bytes 16 8)) graph.edgeCount
  return ⟨version, ⟨byteAt bytes 7⟩, graph⟩

end Container
end OpGraph
