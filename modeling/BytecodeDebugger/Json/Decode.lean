import BytecodeDebugger.Json.Basic
import BytecodeDebugger.Json.Reader
import BytecodeDebugger.Text.Count

/-!
# From JSON to data

A decoder walks a draft in order and stops at the first thing wrong, be it a fault of the text or a
value of another shape than wanted. Records read from objects, whose unknown fields are passed over
and whose known fields may stand only once, and from arrays that give the fields in order.

The same decoders read finished values: `Draft.ofJson` is a draft without faults.
-/

namespace BytecodeDebugger

/-- **Why JSON cannot be read as wanted**: the text ends early, it is malformed, or it is JSON of
another shape. A refusal of the data's own rules carries its wording. -/
inductive JsonError where
  | early
  | malformed
  | shape (refusal : Option String)
  deriving DecidableEq, Repr

namespace Json

/-- The error that a fault of the text is. -/
def Fault.error : Fault → JsonError
  | .early => .early
  | .malformed => .malformed

mutual

/-- A value as a draft. -/
def Draft.ofJson : Json → Draft
  | .null => .null
  | .bool b => .bool b
  | .int n => .int n
  | .float x => .float x
  | .string s => .string s
  | .array items => .array (ofItems items) none
  | .object fields => .object (ofFields fields) none

/-- Items as drafts. -/
def Draft.ofItems : List Json → List Draft
  | [] => []
  | j :: js => Draft.ofJson j :: Draft.ofItems js

/-- Fields as drafts. -/
def Draft.ofFields : List (String × Json) → List (Option String × Draft)
  | [] => []
  | (k, j) :: fs => (some k, Draft.ofJson j) :: Draft.ofFields fs

end

/-- Where a decoder stands: how many containers may still be entered, and what is wrong with a
record's array that has more items than the record has fields. -/
structure Scope where
  depth : Nat
  surplus : JsonError

/-- The scope of a text. -/
def Scope.ofText : Scope := ⟨127, .malformed⟩

/-- The scope of a finished value, which may nest as deep as it does. -/
def Scope.ofValue (j : Json) : Scope := ⟨j.nesting, .shape none⟩

/-- Reads a draft as an `α`. -/
abbrev Decoder (α : Type) : Type := Scope → Draft → Except JsonError α

/-- Enters a container. -/
def Scope.enter (scope : Scope) : Except JsonError Scope :=
  match scope.depth with
  | 0 => .error .malformed
  | depth + 1 => .ok { scope with depth }

/-- What is wrong with a draft that has another shape than wanted. A fault of the text comes first,
but containers are not looked into. -/
def Draft.mismatch : Draft → JsonError
  | .overflow => .malformed
  | .cutNumber => .early
  | .mangled _ => .malformed
  | .fault f => f.error
  | _ => .shape none

/-- Stops at a fault. -/
def checkFault : Option Fault → Except JsonError Unit
  | none => .ok ()
  | some f => .error f.error

/-- Passes over a value. -/
def Draft.pass (d : Draft) : Except JsonError Unit := checkFault d.passFault

namespace Decoder

/-- Reads a truth value. -/
def bool : Decoder Bool
  | _, .bool b => .ok b
  | _, d => .error d.mismatch

/-- Reads a text. -/
def string : Decoder String
  | _, .string s => .ok s
  | _, d => .error d.mismatch

/-- Reads an integer between two bounds. -/
def int (low high : Int) : Decoder Int
  | _, .int n => if low ≤ n ∧ n ≤ high then .ok n else .error (.shape none)
  | _, d => .error d.mismatch

/-- Reads a natural number of 64 bits. -/
def nat : Decoder Nat
  | _, .int n => if 0 ≤ n ∧ n ≤ Text.maxWord then .ok n.toNat else .error (.shape none)
  | _, d => .error d.mismatch

/-- Reads null as none. -/
def option {α : Type} (decode : Decoder α) : Decoder (Option α)
  | _, .null => .ok none
  | scope, d => (decode scope d).map some

/-- Reads each item. -/
def items {α : Type} (decode : Decoder α) (scope : Scope) : List Draft → Except JsonError (List α)
  | [] => .ok []
  | d :: ds => do
    let a ← decode scope d
    let as ← items decode scope ds
    return a :: as

/-- Reads an array. -/
def list {α : Type} (decode : Decoder α) : Decoder (List α)
  | scope, .array ds stop => do
    let scope ← scope.enter
    let as ← items decode scope ds
    -- the items come before the fault behind them, and so do their errors
    checkFault stop
    return as
  | _, d => .error d.mismatch

/-- Reads each field. -/
def fields {α : Type} (decode : Decoder α) (scope : Scope) :
    List (Option String × Draft) → Except JsonError (List (String × α))
  | [] => .ok []
  | (none, _) :: _ => .error .malformed
  | (some k, d) :: fs => do
    let a ← decode scope d
    let as ← fields decode scope fs
    return (k, a) :: as

/-- Reads an object as a map. -/
def map {α : Type} (decode : Decoder α) : Decoder (SortedMap String α)
  | scope, .object fs stop => do
    let scope ← scope.enter
    let entries ← fields decode scope fs
    checkFault stop
    return SortedMap.ofList entries
  | _, d => .error d.mismatch

mutual

/-- Reads any value. -/
def any : Nat → Draft → Except JsonError Json
  | _, .null => .ok .null
  | _, .bool b => .ok (.bool b)
  | _, .int n => .ok (.int n)
  | _, .float x => .ok (.float x)
  | _, .string s => .ok (.string s)
  | _, .overflow => .error .malformed
  | _, .cutNumber => .error .early
  | _, .mangled _ => .error .malformed
  | _, .fault f => .error f.error
  -- too deep, whatever the container holds
  | 0, .array .. => .error .malformed
  | depth + 1, .array ds stop => do
    let js ← anyItems depth ds
    checkFault stop
    return .array js
  | 0, .object .. => .error .malformed
  | depth + 1, .object fs stop => do
    let js ← anyFields depth fs
    checkFault stop
    return .object js

/-- Reads any items. -/
def anyItems : Nat → List Draft → Except JsonError (List Json)
  | _, [] => .ok []
  | depth, d :: ds => do
    let j ← any depth d
    let js ← anyItems depth ds
    return j :: js

/-- Reads any fields. -/
def anyFields : Nat → List (Option String × Draft) → Except JsonError (List (String × Json))
  | _, [] => .ok []
  | _, (none, _) :: _ => .error .malformed
  | depth, (some k, d) :: fs => do
    let j ← any depth d
    let js ← anyFields depth fs
    return (k, j) :: js

end

/-- Reads any value, with its fields as they stand. -/
def json : Decoder Json := fun scope d => any scope.depth d

/-- **A field of a record under construction.** -/
structure Field (ρ : Type) where
  key : String
  required : Bool
  set : Decoder (ρ → ρ)

/-- A field that may be left out, with its way into the record. -/
def Field.optional {ρ α : Type} (key : String) (decode : Decoder α) (put : α → ρ → ρ) : Field ρ :=
  ⟨key, false, fun scope d => (decode scope d).map put⟩

/-- A field that must be there. -/
def Field.needed {ρ α : Type} (key : String) (decode : Decoder α) (put : α → ρ → ρ) : Field ρ :=
  ⟨key, true, fun scope d => (decode scope d).map put⟩

/-- Fills a record from the fields of an object; `seen` are the keys met so far. -/
def fill {ρ : Type} (known : List (Field ρ)) (scope : Scope) (seen : List String) (r : ρ) :
    List (Option String × Draft) → Except JsonError (List String × ρ)
  | [] => .ok (seen, r)
  | (none, _) :: _ => .error .malformed
  | (some k, d) :: fs =>
    match known.find? (·.key = k) with
    | none => do
      d.pass
      fill known scope seen r fs
    -- a key may come twice only if no field has it
    | some field =>
      if k ∈ seen then .error (.shape none)
      else do
        let put ← field.set scope d
        fill known scope (k :: seen) (put r) fs

/-- Fills a record from the items of an array. -/
def fillInOrder {ρ : Type} (scope : Scope) (r : ρ) :
    List (Field ρ) → List Draft → Option Fault → Except JsonError ρ
  | [], [], stop => do
    checkFault stop
    return r
  | [], _ :: _, _ => .error scope.surplus
  -- an array may end early, as long as only optional fields are left
  | field :: known, [], stop => do
    checkFault stop
    if field.required then .error (.shape none) else fillInOrder scope r known [] stop
  | field :: known, d :: ds, stop => do
    let put ← field.set scope d
    fillInOrder scope (put r) known ds stop

/-- Reads a record, starting from what stands for absent fields. -/
def record {ρ : Type} (blank : ρ) (known : List (Field ρ)) : Decoder ρ
  | scope, .object fs stop => do
    let scope ← scope.enter
    let (seen, r) ← fill known scope [] blank fs
    checkFault stop
    -- what is missing is noticed last, behind every fault of the text
    if known.all fun field => !field.required || seen.contains field.key then return r
    else .error (.shape none)
  | scope, .array ds stop => do
    let scope ← scope.enter
    fillInOrder scope blank known ds stop
  | _, d => .error d.mismatch

end Decoder

/-- Reads a whole document: the value, then the fault of anything behind it. -/
def Document.decode {α : Type} (decoder : Decoder α) (doc : Document) : Except JsonError α := do
  let a ← decoder .ofText doc.draft
  -- a value that is wrong is reported before anything behind it
  if doc.trailing then .error .malformed else return a

/-- Reads a text. -/
def decodeText {α : Type} (decoder : Decoder α) (s : String) : Except JsonError α :=
  (Document.ofText s).decode decoder

/-- Reads a finished value. -/
def decodeValue {α : Type} (decoder : Decoder α) (j : Json) : Except JsonError α :=
  decoder (.ofValue j) (.ofJson j)

/-- The value that a text spells, in canonical form. -/
def parse (s : String) : Except JsonError Json := (decodeText Decoder.json s).map canonical

end Json

/-- The wording of an error: only refusals of the data's own rules are worded. -/
def JsonError.message : JsonError → String
  | .shape (some refusal) => refusal
  | _ => "<json>"

end BytecodeDebugger
