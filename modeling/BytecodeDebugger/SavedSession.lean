import BytecodeDebugger.Breakpoints
import BytecodeDebugger.Event
import BytecodeDebugger.FileFault
import BytecodeDebugger.Json.Writer

/-!
# What outlives a session

Breakpoints and the switch that arms them are kept between sessions, in memory or in a JSON file. A
part that was never saved is absent, and saving one part leaves the other as it is. A file that does
not exist counts as an empty session; a file that cannot be read is never overwritten.
-/

namespace BytecodeDebugger

/-- **A saved session.** -/
structure SavedSession where
  breakpoints : Option BreakpointMap := none
  stopAtBreakpoints : Option Bool := none

/-- A part to be saved. -/
inductive Save where
  | breakpoints (flags : BreakpointMap)
  | stops (stops : Bool)

namespace SavedSession

open Json (Decoder)
open Json.Decoder (Field)

/-- Saves a part. -/
def record (s : SavedSession) : Save → SavedSession
  | .breakpoints flags => { s with breakpoints := some flags }
  | .stops stops => { s with stopAtBreakpoints := some stops }

/-- Reads the flags of every file. -/
def flagsDecoder : Decoder BreakpointMap := Decoder.map (Decoder.list Decoder.bool)

/-- Reads a saved session. -/
def decoder : Decoder SavedSession :=
  Decoder.record {} [
    Field.optional "breakpoints" (Decoder.option flagsDecoder)
      fun x r => { r with breakpoints := x },
    Field.optional "stopAtBreakpoints" (Decoder.option Decoder.bool)
      fun x r => { r with stopAtBreakpoints := x }]

/-- A saved session as JSON; absent parts are left out. -/
def toJson (s : SavedSession) : Json :=
  .object ((s.breakpoints.map fun m => ("breakpoints", m.toJson)).toList
    ++ (s.stopAtBreakpoints.map fun b => ("stopAtBreakpoints", .bool b)).toList)

end SavedSession

/-- Why a store cannot be read or written. -/
inductive StoreError where
  | file (fault : FileFault)
  | json (error : JsonError)
  deriving DecidableEq, Repr

/-- The wording of an error. -/
def StoreError.message : StoreError → String
  | .file fault => "session store: " ++ fault.message
  | .json error => "malformed JSON: " ++ error.message

/-- **A store of states `τ`** that a session can be loaded from and parts saved to. -/
structure Store (τ : Type) where
  load : τ → Except StoreError SavedSession
  save : τ → Save → Except StoreError τ

namespace Store

/-- The store that is a saved session. -/
def memory : Store SavedSession := ⟨.ok, fun s part => .ok (s.record part)⟩

/-- A store that may be missing. A missing store is empty and forgets what it is given. -/
def optional {τ : Type} (store : Store τ) : Store (Option τ) where
  load
    | some s => store.load s
    | none => .ok {}
  save
    | some s, part => (store.save s part).map some
    | none, _ => .ok none

/-- The session in a file, given what reading the file gave. -/
def ofFile (contents : Except FileFault String) : Except StoreError SavedSession :=
  match contents with
  | .ok text => (Json.decodeText SavedSession.decoder text).mapError .json
  | .error .notFound => .ok {}
  -- any other fault keeps the file from being overwritten
  | .error fault => .error (.file fault)

/-- The text that a file gets when a part is saved, given what reading it gave. -/
def update (contents : Except FileFault String) (part : Save) : Except StoreError String :=
  (ofFile contents).map fun s => (s.record part).toJson.pretty

/-- Saves parts one after the other. A part that cannot be saved is lost. -/
def saveAll {τ : Type} (store : Store τ) (s : τ) (parts : List Save) : τ :=
  parts.foldl (fun s part => match store.save s part with
    | .ok s => s
    | .error _ => s) s

/-- What a session starts from: nothing when the store cannot be read. -/
def start {τ : Type} (store : Store τ) (s : τ) : SavedSession := (store.load s).toOption.getD {}

end Store

end BytecodeDebugger
