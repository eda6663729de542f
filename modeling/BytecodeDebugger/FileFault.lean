import BytecodeDebugger.Json.Decode

/-!
# Files that cannot be read or written

The faults of a file system, with the wording of the system, and the two ways in which loading data
from a file fails.
-/

namespace BytecodeDebugger

/-- **Why a file cannot be read or written.** -/
inductive FileFault where
  | notFound
  | notDirectory
  | isDirectory
  | nameTooLong
  /-- the name holds a character that no file name may hold -/
  | badName
  | notText
  /-- any other fault, in the words of the system -/
  | other (text : String)
  deriving DecidableEq, Repr

/-- The wording of a fault. -/
def FileFault.message : FileFault → String
  | .notFound => "No such file or directory (os error 2)"
  | .notDirectory => "Not a directory (os error 20)"
  | .isDirectory => "Is a directory (os error 21)"
  | .nameTooLong => "File name too long (os error 36)"
  | .badName => "file name contained an unexpected NUL byte"
  | .notText => "stream did not contain valid UTF-8"
  | .other text => text

/-- Why data cannot be loaded from a file: the file cannot be read, or its text not be decoded. -/
inductive LoadError where
  | unreadable (path : String) (fault : FileFault)
  | json (error : JsonError)
  deriving DecidableEq, Repr

/-- Loads data from what reading a file gave. -/
def loadFile {α : Type} (decoder : Json.Decoder α) (path : String)
    (contents : Except FileFault String) : Except LoadError α :=
  match contents with
  | .error fault => .error (.unreadable path fault)
  | .ok text => (Json.decodeText decoder text).mapError .json

end BytecodeDebugger
