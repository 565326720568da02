/-!
Paths as text, with slashes between their parts.
-/

namespace OpGraph.Path

/-- The parts of a path; blank ones, from doubled or final slashes, included. -/
def parts (path : String) : List String := path.splitOn "/"

/-- A path less the slashes at its end; the root keeps one. -/
def withoutFinalSlashes (path : String) : String :=
  match path.toList.reverse.dropWhile (· == '/') with
  | [] => if path.isEmpty then "" else "/"
  | chars => String.ofList chars.reverse

/-- The last part that names a file or directory. -/
def fileName? (path : String) : Option String :=
  match ((parts path).filter fun part => part != "" && part != ".").getLast? with
  | some ".." | none => none
  | some name => some name

/-- What follows the last dot of the file name. A name whose only dot is its first character has none. -/
def extension? (path : String) : Option String := do
  let chars := (← fileName? path).toList.reverse
  match chars.span (· != '.') with
  | (after, '.' :: before) => if before.isEmpty then none else some (String.ofList after.reverse)
  | _ => none

/-- The directories from an absolute path up to the root. -/
def ancestors (path : String) : List String :=
  let names := (parts path).filter (· != "")
  (List.range (names.length + 1)).reverse.map fun count => "/" ++ "/".intercalate (names.take count)

/-- A file in a directory. -/
def join (directory name : String) : String :=
  if directory.endsWith "/" then directory ++ name else directory ++ "/" ++ name

end OpGraph.Path
