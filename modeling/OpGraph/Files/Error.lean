/-!
Why a file cannot be read or written, and the texts the operating system has for it.
-/

namespace OpGraph

inductive FileError where
  | notFound
  | notDirectory
  | isDirectory
  | permissionDenied
  | nameTooLong
  | invalidUtf8
  | other (text : String)
deriving DecidableEq

def FileError.message : FileError → String
  | notFound => "No such file or directory (os error 2)"
  | notDirectory => "Not a directory (os error 20)"
  | isDirectory => "Is a directory (os error 21)"
  | permissionDenied => "Permission denied (os error 13)"
  | nameTooLong => "File name too long (os error 36)"
  | invalidUtf8 => "stream did not contain valid UTF-8"
  | other text => text

end OpGraph
