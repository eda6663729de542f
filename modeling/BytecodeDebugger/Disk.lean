import BytecodeDebugger.SavedSession
import BytecodeDebugger.SourcePath

/-!
# A file system in memory

Files and directories below one working directory. Paths are followed as a system follows them:
every part but the last must be a directory, `.` stays and `..` goes up, and a path that ends in a
slash wants a directory. What lies outside the working directory does not exist.
-/

namespace BytecodeDebugger

/-- A file with its bytes, or a directory. -/
inductive DiskNode where
  | file (bytes : ByteArray)
  | directory

/-- **The nodes below the working directory**, by the path that leads to them. -/
structure Disk where
  nodes : SortedMap String DiskNode

namespace Disk

/-- The disk without files. -/
def empty : Disk := ⟨.empty⟩

/-- The key of a path given by its segments, outermost first. -/
def key (path : List String) : String := "/".intercalate path

/-- The node at a path given by its segments, innermost first. -/
def node? (d : Disk) (path : List String) : Option DiskNode :=
  if path.isEmpty then some .directory else d.nodes.get? (key path.reverse)

/-- What a name may not be. -/
def nameFault (path : String) (segments : List String) : Option FileFault :=
  if path.toList.contains '\x00' then some .badName
  else if path.isEmpty then some .notFound
  else if 4095 < path.utf8ByteSize || segments.any (255 < ·.utf8ByteSize) then some .nameTooLong
  else none

/-- What is found outside the working directory: the directories around it, and nothing else. -/
def outside (segments : List String) : FileFault :=
  if segments.all fun s => s = "" || s = "." || s = ".." then .isDirectory else .notFound

/-- Follows segments from a directory, given by its segments, innermost first. Anything may stand at
the end, nothing too, unless more was to follow. -/
def follow (d : Disk) (path : List String) : List String → Except FileFault (List String)
  | [] => .ok path
  | segment :: rest =>
    match d.node? path with
    | none => .error .notFound
    | some (.file _) => .error .notDirectory
    | some .directory =>
      if segment = "" ∨ segment = "." then follow d path rest
      else if segment = ".." then
        match path with
        -- the path leaves the working directory, whatever follows
        | [] => .error (outside rest)
        | _ :: outer => follow d outer rest
      else follow d (segment :: path) rest

/-- The segments that a path leads to, innermost first. -/
def locate (d : Disk) (path : String) : Except FileFault (List String) :=
  let segments := (SourcePath.segments path.toList).map String.ofList
  match nameFault path segments with
  | some fault => .error fault
  | none => if path.toList.head? = some '/' then .error (outside segments) else follow d [] segments

/-- The bytes of a file. -/
def readBytes (d : Disk) (path : String) : Except FileFault ByteArray := do
  match d.node? (← d.locate path) with
  | none => .error .notFound
  | some .directory => .error .isDirectory
  | some (.file bytes) => return bytes

/-- The text of a file. -/
def read (d : Disk) (path : String) : Except FileFault String := do
  match String.fromUTF8? (← d.readBytes path) with
  | some text => return text
  | none => .error .notText

/-- Writes a text over a file, which is made if its directory exists. -/
def put (d : Disk) (path : String) (text : String) : Except FileFault Disk := do
  let target ← d.locate path
  match d.node? target with
  | some .directory => .error .isDirectory
  | some (.file _) => return ⟨d.nodes.insert (key target.reverse) (.file text.toUTF8)⟩
  | none =>
    -- the directory that would hold it, innermost segment left out
    match d.node? target.tail with
    | some .directory => return ⟨d.nodes.insert (key target.reverse) (.file text.toUTF8)⟩
    | some (.file _) => .error .notDirectory
    | none => .error .notFound

/-- A path without the slashes at its end. -/
def stem (path : String) : String :=
  String.ofList (path.toList.reverse.dropWhile (· = '/')).reverse

/-- Writes a text to a file. A path that ends in a slash can only mean a directory, whether there is
one or not. -/
def write (d : Disk) (path : String) (text : String) : Except FileFault Disk :=
  if stem path = path ∨ stem path = "" then d.put path text
  else d.put (stem path) text >>= fun _ => .error .isDirectory

/-- Every beginning of a list of segments. -/
def beginnings : List String → List (List String)
  | [] => []
  | s :: ss => [s] :: (beginnings ss).map (s :: ·)

/-- Puts a node at a path and directories on the way to it. -/
def place (d : Disk) (path : String) (node : DiskNode) : Disk :=
  let segments := ((SourcePath.segments path.toList).map String.ofList).filter
    fun s => s ≠ "" ∧ s ≠ "."
  let d := (beginnings segments.dropLast).foldl
    (fun d s => if d.nodes.contains (key s) then d else ⟨d.nodes.insert (key s) .directory⟩) d
  ⟨d.nodes.insert (key segments) node⟩

/-- The store in a file of this disk. -/
def store (path : String) : Store Disk where
  load d := Store.ofFile (d.read path)
  save d part := do
    let text ← Store.update (d.read path) part
    (d.write path text).mapError .file

end Disk

end BytecodeDebugger
