import OpGraph.Command.Run

/-!
The command line. Nothing is decided here: the machine's files, clock and output are handed to the
commands, and their outcome becomes the exit code.
-/

namespace OpGraph

/-- What the operating system says about a file, by its error number. -/
def FileError.ofNumber (number : UInt32) (text : String) : FileError :=
  match number.toNat with
  | 2 => .notFound
  | 13 => .permissionDenied
  | 20 => .notDirectory
  | 21 => .isDirectory
  | 36 => .nameTooLong
  | _ => .other s!"{text} (os error {number})"

def FileError.ofFailure : IO.Error → FileError
  | .alreadyExists _ number text | .invalidArgument _ number text | .permissionDenied _ number text
  | .resourceExhausted _ number text | .inappropriateType _ number text | .noSuchThing _ number text
  | .noFileOrDirectory _ number text | .interrupted _ number text
  | .otherError number text | .resourceBusy number text | .resourceVanished number text
  | .unsupportedOperation number text | .hardwareFault number text | .unsatisfiedConstraints number text
  | .illegalOperation number text | .protocolError number text | .timeExpired number text =>
    .ofNumber number text
  | .unexpectedEof => .other "unexpected end of file"
  | .userError text => .other text

def readFile (path : String) : IO (Except FileError Bytes) := do
  try
    let handle ← IO.FS.Handle.mk path .read
    return .ok (← handle.readBinToEnd).toList
  catch failure =>
    return .error (.ofFailure failure)

def writeFile (path : String) (bytes : Bytes) : IO (Except FileError Unit) := do
  try
    IO.FS.writeBinFile path ⟨bytes.toArray⟩
    return .ok ()
  catch failure =>
    return .error (.ofFailure failure)

instance : Host IO where
  workingDirectory := return (← IO.currentDir).toString
  isFile path := return (← readFile path) matches .ok _ | .error .permissionDenied
  read := readFile
  write := writeFile
  print := IO.print
  milliseconds := IO.monoMsNow

end OpGraph

/-- Exits with 2 where the arguments are refused, and with 1 where a command fails. -/
def main (arguments : List String) : IO UInt32 := do
  match OpGraph.Arguments.parse? arguments with
  | none =>
    IO.eprintln "error: the arguments are not understood; see --help"
    return 2
  | some invocation =>
    match ← (OpGraph.Command.run invocation).run with
    | .ok () => return 0
    | .error error =>
      IO.eprintln s!"error: {error.message}"
      return 1
