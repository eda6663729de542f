/-!
# Where the source of a chunk lives

A chunk may record where its source is, seen from the chunk's own directory; the joined path is
brought to a normal form, in which no segment is empty or `.` and a `..` stands only at the front. A
chunk that records nothing has its source beside it, under its own name with another ending.
-/

namespace BytecodeDebugger.SourcePath

/-- The segments between slashes. -/
def segments : List Char → List (List Char)
  | [] => [[]]
  | c :: cs =>
    if c = '/' then [] :: segments cs
    else match segments cs with
      | [] => [[c]]
      | s :: ss => (c :: s) :: ss

/-- The segment for the directory itself. -/
def here : List Char := ['.']

/-- The segment for the directory above. -/
def up : List Char := ['.', '.']

/-- Goes down one segment from a path given from its end: nothing for `.` and for no name, one back
for `..` unless there is nothing to go back over. -/
def descend (path : List (List Char)) (segment : List Char) : List (List Char) :=
  if segment = [] ∨ segment = here then path
  else if segment = up then
    match path with
    | last :: rest => if last = up then up :: path else rest
    -- above the start, or behind other steps up, there is no name to take back
    | [] => [up]
  else segment :: path

/-- The segments of a path's normal form. -/
def reduce (path : List (List Char)) : List (List Char) := (path.foldl descend []).reverse

/-- Segments with slashes between them. -/
def join (path : List (List Char)) : List Char := List.intercalate ['/'] path

/-- The normal form of a path. It starts with a slash if the path does. -/
def normalize (path : List Char) : List Char :=
  let reduced := join (reduce (segments path))
  if path.head? = some '/' then '/' :: reduced else reduced

/-- What stands before the last slash, if there is one. -/
def directory? (url : List Char) : Option (List Char) :=
  if '/' ∈ url then some ((url.reverse.dropWhile (· ≠ '/')).drop 1).reverse else none

/-- A path without an ending, if it has it. -/
def dropEnding? (ending path : List Char) : Option (List Char) :=
  if ending.isSuffixOf path then some (path.take (path.length - ending.length)) else none

/-- The name of the source beside a chunk. -/
def beside (url : List Char) : List Char :=
  -- the longer ending is tried first, since it ends in the shorter one
  let stem := ((dropEnding? ".lua.json".toList url).or (dropEnding? ".json".toList url)).getD url
  stem ++ ".lua".toList

/-- Where a path recorded in a chunk leads before it is brought to normal form. -/
def joined (url path : List Char) : List Char :=
  match directory? url with
  | some dir => dir ++ '/' :: path
  | none => path

/-- **Where the source of a chunk lives**, given the chunk's own place and what it records. -/
def resolve (url : String) (path? : Option String) : String :=
  String.ofList (match path? with
    | some path => normalize (joined url.toList path.toList)
    | none => beside url.toList)

end BytecodeDebugger.SourcePath
