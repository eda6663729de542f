import BytecodeDebugger.Chunk.Basic
import BytecodeDebugger.Heap

/-!
# Host functions

A host function answers a call with a `Host` program: it prints, sets globals, looks at tables and
changes them, loads chunks, calls functions of the language and looks at their results, and in the end
returns values or raises an error. Calls that a host function makes are not attended by the debugger.

Host functions are data, so that a statement about a machine can range over all that have these
effects. What they remember from call to call they keep in tables. They do not take what was printed,
read the last traceback, count frames or register further host functions, and nothing is said about
functions that do.
-/

namespace BytecodeDebugger

/-- **What a host function does.** -/
inductive Host where
  | result (values : List Value)
  | raise (error : ExecError)
  | print (line : String) (next : Host)
  | setGlobal (name : String) (value : Value) (next : Host)
  /-- looks at the tables, the one of the globals among them -/
  | tables (next : Heap → Host)
  | setTables (heap : Heap) (next : Host)
  | load (chunk : Chunk) (file : String) (next : FunctionId → Host)
  | call (function : Value) (args : List Value) (next : Except ExecError (List Value) → Host)

/-- A host function answers arguments. -/
abbrev HostFunction : Type := List Value → Host

namespace Host

/-- Raises an error of the program with this message. -/
def fail (message : String) : Host := .raise (.runtime { message })

/-- Prints the texts of its arguments, a tab between them. -/
def printAll : HostFunction := fun args =>
  .print ("\t".intercalate (args.map Value.text)) (.result [])

/-- Returns the text of its first argument. -/
def textOf : HostFunction := fun args => .result [.string (args.headD .nil).text]

/-- Raises an error with the text of its first argument as message. -/
def raiseText : HostFunction := fun args => fail (args.headD .nil).text

/-- Returns its arguments if the first of them counts as true, and raises an error otherwise. -/
def demand : HostFunction := fun args =>
  if (args.headD .nil).isTruthy then .result args
  else fail ((args[1]?.map Value.text).getD "assertion failed!")

/-- The functions every program starts with, under their names. -/
def builtins : List (String × HostFunction) :=
  [("print", printAll), ("tostring", textOf), ("error", raiseText), ("assert", demand)]

/-- Always returns the same values. -/
def constant (values : List Value) : HostFunction := fun _ => .result values

/-- Returns its arguments. -/
def echo : HostFunction := fun args => .result args

/-- Returns how many arguments it got. -/
def count : HostFunction := fun args => .result [.number args.length.toUInt64.toFloat]

/-- Always raises the same error. -/
def failing (e : ExecError) : HostFunction := fun _ => .raise e

/-- Sets the global named by the text of its first argument to the second. -/
def setsGlobal : HostFunction := fun args =>
  .setGlobal (args.headD .nil).text (args.getD 1 .nil) (.result [])

/-- Calls its first argument with the others; results and errors pass through. -/
def callback : HostFunction := fun args =>
  .call (args.headD .nil) args.tail fun
    | .ok values => .result values
    | .error e => .raise e

/-- Calls its first argument with the others. Returns true and the results, or false and the text of
the error. -/
def protectedCall : HostFunction := fun args =>
  .call (args.headD .nil) args.tail fun
    | .ok values => .result (.boolean true :: values)
    | .error e => .result [.boolean false, .string e.text]

end Host

end BytecodeDebugger
