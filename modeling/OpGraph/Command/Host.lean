import OpGraph.Files.Tree

/-!
What a command asks of the machine it runs on, and a machine in memory that answers from a tree of
files and collects what is printed.
-/

namespace OpGraph

class Host (m : Type → Type) where
  /-- The absolute path of the working directory. -/
  workingDirectory : m String
  isFile : String → m Bool
  read : String → m (Except FileError Bytes)
  write : String → Bytes → m (Except FileError Unit)
  /-- Prints a text as it is. -/
  print : String → m Unit
  milliseconds : m Nat

structure MemoryHost where
  tree : FileTree
  printed : String := ""

namespace MemoryHost

instance : Host (StateM MemoryHost) where
  workingDirectory := return (← get).tree.current
  isFile path := return (← get).tree.isFile path
  read path := return (← get).tree.read path
  write path bytes := do
    let host ← get
    match host.tree.write path bytes with
    | .ok tree =>
      set { host with tree }
      return .ok ()
    | .error error => return .error error
  print text := modify fun host => { host with printed := host.printed ++ text }
  milliseconds := return 0

end MemoryHost
end OpGraph
