/-!
# Options

What the command line can ask for. Arguments are read from left to right, and the first that is
wrong, or that asks for help, ends the reading. Long options take a value behind an equals sign or
as the next argument; behind a bare double dash nothing is an option.
-/

namespace BytecodeDebugger

/-- **What the command line asks for.** -/
structure Options where
  /-- speak to a client instead of a user -/
  dap : Bool := false
  /-- the file of the configuration -/
  config : Option String := none
  /-- the file in which breakpoints are kept -/
  store : Option String := none
  stopOnEntry : Bool := false
  program : Option String := none
  deriving DecidableEq, Repr

/-- Why arguments give no options: help is wanted, or an argument is wrong. -/
inductive Usage where
  | help
  | unknown (arg : String)
  | repeated (name : String)
  | noValue (name : String)
  | surplusValue (name : String)
  deriving DecidableEq, Repr

namespace Usage

/-- The help for the command line. -/
def helpText : String := "\n".intercalate [
  "Debug compiled Lua chunks from a console or a protocol client",
  "",
  "Usage: lua-debugger [OPTIONS] [PROGRAM]",
  "",
  "Arguments:",
  "  [PROGRAM]  Compiled chunk to run (`*.lua.json`)",
  "",
  "Options:",
  "      --dap              Speak the framed JSON protocol on stdio instead of the console",
  "      --config <CONFIG>  Engine configuration (JSON)",
  "      --store <STORE>    File that keeps breakpoints between sessions",
  "      --stop-on-entry    Suspend before the first instruction",
  "  -h, --help             Print help"]

/-- The wording of what is wrong. -/
def message : Usage → String
  | .help => helpText
  | .unknown arg => "error: unexpected argument '" ++ arg ++ "' found"
  | .repeated name => "error: the argument '" ++ name ++ "' cannot be used multiple times"
  | .noValue name => "error: a value is required for '" ++ name ++ "' but none was supplied"
  | .surplusValue name =>
    "error: unexpected value for '" ++ name ++ "' found; no more were expected"

end Usage

namespace Options

/-- An option by its name. -/
inductive Flag where
  | dap
  | config
  | store
  | stopOnEntry
  | help
  deriving DecidableEq, Repr

/-- The option of a long name. -/
def Flag.ofName : String → Option Flag
  | "dap" => some .dap
  | "debug-adapter" => some .dap
  | "config" => some .config
  | "store" => some .store
  | "stop-on-entry" => some .stopOnEntry
  | "help" => some .help
  | _ => none

/-- Whether an option takes a value. -/
def Flag.takesValue : Flag → Bool
  | .config => true
  | .store => true
  | _ => false

/-- Whether an argument can be nothing but an option. -/
def looksLikeOption (arg : String) : Bool := arg.toList.head? = some '-' && arg ≠ "-"

/-- Gives a value to what has none yet. -/
def give (name value : String) : Option String → Except Usage (Option String)
  | some _ => .error (.repeated name)
  | none => if value.isEmpty then .error (.noValue name) else .ok (some value)

/-- Adds an argument that is no option. -/
def withOperand (o : Options) (arg : String) : Except Usage Options :=
  match o.program with
  | some _ => .error (.unknown arg)
  | none => do return { o with program := ← give "[PROGRAM]" arg none }

/-- Adds an option with its value, which is empty for an option that takes none. -/
def withFlag (o : Options) (value : String) : Flag → Except Usage Options
  | .dap => if o.dap then .error (.repeated "--dap") else .ok { o with dap := true }
  | .stopOnEntry =>
    if o.stopOnEntry then .error (.repeated "--stop-on-entry")
    else .ok { o with stopOnEntry := true }
  | .config => do return { o with config := ← give "--config" value o.config }
  | .store => do return { o with store := ← give "--store" value o.store }
  -- help ends the reading, even in front of wrong arguments
  | .help => .error .help

/-- Reads arguments none of which is an option. -/
def readOperands (o : Options) (args : List String) : Except Usage Options :=
  args.foldlM withOperand o

/-- Parts a long option from the value behind its equals sign. -/
def partValue (long : List Char) : String × Option String :=
  match long.span (· ≠ '=') with
  | (name, _ :: value) => (String.ofList name, some (String.ofList value))
  | (name, []) => (String.ofList name, none)

/-- Reads arguments behind those that gave `o`. -/
def read (o : Options) : List String → Except Usage Options
  | [] => .ok o
  | arg :: rest =>
    match arg.toList with
    | ['-', '-'] => o.readOperands rest
    | '-' :: '-' :: long =>
      let (name, value?) := partValue long
      match Flag.ofName name, value? with
      | none, _ => .error (.unknown arg)
      | some flag, some value =>
        if flag.takesValue then do (← o.withFlag value flag).read rest
        else .error (.surplusValue arg)
      | some flag, none =>
        if flag.takesValue then
          match rest with
          | [] => .error (.noValue arg)
          | value :: rest =>
            -- an option is no value of another option
            if looksLikeOption value then .error (.noValue arg)
            else do (← o.withFlag value flag).read rest
        else do (← o.withFlag "" flag).read rest
    -- a single dash is a program like any other
    | ['-'] => do (← o.withOperand arg).read rest
    | '-' :: 'h' :: _ => .error .help
    | '-' :: _ => .error (.unknown arg)
    | _ => do (← o.withOperand arg).read rest

/-- **Reads the arguments of the command line.** -/
def ofArgs (args : List String) : Except Usage Options := read {} args

end Options

end BytecodeDebugger
