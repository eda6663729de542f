import BytecodeDebugger.Text.Count

/-!
# Errors of a debugged program

An error raised by the program itself carries the frames it passed and, once the debugger has seen
it, a sequence index. A failure of the host carries the host's own trace lines besides. Because some
readers of errors see only text, the text of an indexed error ends in a tag from which the index can
be recovered.
-/

namespace BytecodeDebugger

/-- The name of a call frame. -/
abbrev FrameId := Nat

/-- The name of a coroutine. -/
abbrev CoroutineId := Nat

/-- The sequence index of an error. -/
abbrev ErrorIndex := Nat

/-- A frame at an instruction. -/
structure StackEntry where
  frame : FrameId
  pc : Nat
  deriving DecidableEq, Repr

/-- An error raised by the program, with the frames it passed, innermost first. -/
structure RuntimeError where
  message : String
  stack : List StackEntry := []
  index : Option ErrorIndex := none
  deriving DecidableEq, Repr, Inhabited

/-- A failure of host code, with the trace lines of the host and the frames it passed. -/
structure HostError where
  message : String
  backtrace : List String := []
  stack : List StackEntry := []
  deriving DecidableEq, Repr

/-- **What can go wrong while a program runs.** -/
inductive ExecError where
  | runtime (error : RuntimeError)
  | host (error : HostError)
  deriving DecidableEq, Repr

namespace ErrorIndex

/-- What stands before the index in the text of an error. -/
def tag : List Char := "[lua-debugger:error:".toList

/-- What follows the last place where `p` stands. -/
def afterLast (p : List Char) : List Char → Option (List Char)
  | [] => if p.isEmpty then some [] else none
  | c :: cs =>
    match afterLast p cs with
    | some rest => some rest
    | none => if p.isPrefixOf (c :: cs) then some ((c :: cs).drop p.length) else none

/-- What stands before the first `stop`, none when there is no `stop`. -/
def upTo (stop : Char) : List Char → Option (List Char)
  | [] => none
  | c :: cs => if c = stop then some [] else (upTo stop cs).map (c :: ·)

/-- The index in the last tag of a text. -/
def ofTagged (message : String) : Option ErrorIndex := do
  let rest ← afterLast tag message.toList
  let digits ← upTo ']' rest
  (Text.readCount Text.maxWord digits).toOption

end ErrorIndex

/-- The text of an error: its message, and its index in a tag. -/
def RuntimeError.text (e : RuntimeError) : String :=
  match e.index with
  | none => e.message
  | some i =>
    e.message ++ String.ofList (' ' :: ErrorIndex.tag ++ Nat.toDigits 10 i ++ [']'])

/-- The text of an error of either kind. -/
def ExecError.text : ExecError → String
  | .runtime e => e.text
  | .host e => e.message

end BytecodeDebugger
