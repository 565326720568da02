import OpGraph.Files.Error
import OpGraph.Files.Path
import OpGraph.Utf8
import Std.Data.ExtTreeMap

/-!
A tree of files in memory. It stands in for a disk where commands are run on given files, and gives
the errors that an operating system would give.
-/

namespace OpGraph

structure FileTree where
  /-- Contents by absolute path. -/
  files : Std.ExtTreeMap String Bytes
  /-- The directories besides those that hold a file. -/
  directories : List String
  /-- The absolute path that relative ones start from. -/
  current : String

namespace FileTree

def isDirectory (tree : FileTree) (path : String) : Bool :=
  (tree.directories ++ tree.files.keys).any fun other =>
    other == path && !tree.files.contains path || other.startsWith (Path.join path "")

def requireDirectory (tree : FileTree) (path : String) : Except FileError Unit :=
  if tree.isDirectory path then .ok ()
  else if tree.files.contains path then .error .notDirectory
  else .error .notFound

def parent (path : String) : String :=
  match Path.ancestors path with
  | _ :: parent :: _ => parent
  | _ => "/"

/-- The bytes that the name of a file or directory may have. -/
def longestName : Nat := 255

/-- The bytes that a path may have. -/
def longestPath : Nat := 4095

/-- Follows one part of a path; even a blank one needs a directory to start from. -/
def step (tree : FileTree) (path part : String) : Except FileError String := do
  tree.requireDirectory path
  match part with
  | "" | "." => return path
  | ".." => return parent path
  | name => if name.utf8ByteSize > longestName then throw .nameTooLong else return Path.join path name

/-- The absolute path of a file, all the directories on the way to it being there. -/
def resolve (tree : FileTree) (path : String) : Except FileError String :=
  if path.isEmpty then .error .notFound
  else if path.utf8ByteSize > longestPath then .error .nameTooLong
  else
    let start := if path.startsWith "/" then "/" else tree.current
    (Path.parts path).foldlM tree.step start

def read (tree : FileTree) (path : String) : Except FileError Bytes := do
  let path ← tree.resolve path
  match tree.files[path]? with
  | some bytes => return bytes
  | none => if tree.isDirectory path then throw .isDirectory else throw .notFound

/-- Creates a file, or replaces it. A path that ends in a slash is one of a directory, whether that
is there or not. -/
def write (tree : FileTree) (path : String) (bytes : Bytes) : Except FileError FileTree := do
  let absolute ← tree.resolve (Path.withoutFinalSlashes path)
  if path.endsWith "/" || tree.isDirectory absolute then throw .isDirectory
  return { tree with files := tree.files.insert absolute bytes }

def isFile (tree : FileTree) (path : String) : Bool :=
  match tree.resolve path with
  | .ok path => tree.files.contains path
  | .error _ => false

end FileTree
end OpGraph
