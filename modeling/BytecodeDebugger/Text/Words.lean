/-!
# Words of a command line

A line falls into words as in a POSIX shell: blanks (space, tab, line feed) part words, a number
sign at the start of a word begins a comment, single quotes keep everything, double quotes keep
everything but a backslash before one of four characters, and a bare backslash keeps the next
character. A quote that is not closed, or a backslash at the very end, leaves no reading.
-/

namespace BytecodeDebugger.Text

/-- Where a reader of words stands. -/
inductive WordState where
  /-- between words -/
  | outside
  /-- in a comment, until the line feed -/
  | comment
  /-- in a word, outside quotes -/
  | bare
  /-- behind a backslash outside quotes -/
  | bareEscape
  | single
  | double
  /-- behind a backslash in double quotes -/
  | doubleEscape
  deriving DecidableEq, Repr

/-- Whether a character parts words. -/
def partsWords (c : Char) : Bool := c = ' ' || c = '\t' || c = '\n'

/-- What a bare character does in a word: the next state and what it adds to the word. -/
def bareStep (c : Char) : WordState × List Char :=
  if c = '"' then (.double, [])
  else if c = '\'' then (.single, [])
  else if c = '\\' then (.bareEscape, [])
  else (.bare, [c])

/-- The words of `cs`, in the state given and with the characters of the word begun, last first. -/
def scanWords : WordState → List Char → List Char → Option (List (List Char))
  | .outside, _, [] => some []
  | .comment, _, [] => some []
  | .bare, word, [] => some [word.reverse]
  | .bareEscape, _, [] => none
  | .single, _, [] => none
  | .double, _, [] => none
  | .doubleEscape, _, [] => none
  | .outside, _, c :: cs =>
    if partsWords c then scanWords .outside [] cs
    else if c = '#' then scanWords .comment [] cs
    else scanWords (bareStep c).1 (bareStep c).2 cs
  | .comment, _, c :: cs => scanWords (if c = '\n' then .outside else .comment) [] cs
  | .bare, word, c :: cs =>
    if partsWords c then (scanWords .outside [] cs).map (word.reverse :: ·)
    else scanWords (bareStep c).1 ((bareStep c).2 ++ word) cs
  | .bareEscape, word, c :: cs => scanWords .bare (if c = '\n' then word else c :: word) cs
  | .single, word, c :: cs =>
    if c = '\'' then scanWords .bare word cs else scanWords .single (c :: word) cs
  | .double, word, c :: cs =>
    if c = '"' then scanWords .bare word cs
    else if c = '\\' then scanWords .doubleEscape word cs
    else scanWords .double (c :: word) cs
  | .doubleEscape, word, c :: cs =>
    if c = '$' || c = '\x60' || c = '"' || c = '\\' then scanWords .double (c :: word) cs
    else if c = '\n' then scanWords .double word cs
    else scanWords .double (c :: '\\' :: word) cs

/-- The words of a line, none when a quote stays open or a backslash ends it. -/
def words (line : String) : Option (List String) :=
  (scanWords .outside [] line.toList).map (·.map String.ofList)

end BytecodeDebugger.Text
