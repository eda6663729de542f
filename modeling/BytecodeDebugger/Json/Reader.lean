import BytecodeDebugger.Json.Draft
import BytecodeDebugger.Json.Number
import BytecodeDebugger.Text.Letters

/-!
# Reading JSON texts

A text is read into a `Draft`: the value as far as it goes, with the first fault in its place. What
follows a complete value, blanks apart, is a fault too, which only a reader that found nothing else
wrong reports.
-/

namespace BytecodeDebugger.Json

open Text (Letter)

/-- A draft and the letters behind it; none behind a fault, where reading stops. -/
structure Progress where
  draft : Draft
  rest : Option (List Letter)

/-- Reading stops at a fault. -/
def Progress.stop (f : Fault) : Progress := ⟨.fault f, none⟩

/-- The blanks between the parts of a JSON text. -/
def isGap : Letter → Bool
  | some c => c = ' ' || c = '\n' || c = '\t' || c = '\r'
  | none => false

/-- The letters from the first that is no gap. -/
def skipGaps (ls : List Letter) : List Letter := ls.dropWhile isGap

/-- Reads the rest of a word. -/
def readWord (d : Draft) : List Char → List Letter → Progress
  | [], ls => ⟨d, some ls⟩
  | _ :: _, [] => .stop .early
  | c :: cs, l :: ls => if l = some c then readWord d cs ls else .stop .malformed

/-- The digits at the front and the letters behind them. -/
def readDigits : List Letter → List Nat × List Letter
  | some c :: ls =>
    match Text.digit? c with
    | some d => let (ds, rest) := readDigits ls; (d :: ds, rest)
    | none => ([], some c :: ls)
  | ls => ([], ls)

/-- The draft of a numeral. -/
def Numeral.draft : Numeral → Draft
  | .int n => .int n
  | .float x => .float x
  | .overflow => .overflow

/-- Stops where a digit is wanted. -/
def wantDigit : List Letter → Progress
  | [] => ⟨.cutNumber, none⟩
  | _ => .stop .malformed

/-- Reads an exponent, if there is one, and makes the number of what was read. -/
def readExponent (negative : Bool) (whole : List Nat) (fraction : Option (List Nat)) :
    List Letter → Progress
  | some c :: ls =>
    if c = 'e' || c = 'E' then
      let (down, ls) := match ls with
        | some '-' :: ls => (true, ls)
        | some '+' :: ls => (false, ls)
        | ls => (false, ls)
      match readDigits ls with
      | ([], ls) => wantDigit ls
      | (ds, rest) =>
        let e := ds.foldl (fun n d => n * 10 + d) 0
        ⟨(Numeral.ofDigits negative whole fraction (some (down, e))).draft, some rest⟩
    else ⟨(Numeral.ofDigits negative whole fraction none).draft, some (some c :: ls)⟩
  | ls => ⟨(Numeral.ofDigits negative whole fraction none).draft, some ls⟩

/-- Reads a number behind its sign. A zero in front stands alone. -/
def readNumber (negative : Bool) (ls : List Letter) : Progress :=
  match readDigits ls with
  | ([], ls) => wantDigit ls
  | (whole, rest) =>
    -- a leading zero is refused before what follows is looked at
    if whole.head? = some 0 ∧ whole.length ≠ 1 then .stop .malformed
    else match rest with
      | some '.' :: rest =>
        match readDigits rest with
        | ([], rest) => wantDigit rest
        | (fraction, rest) => readExponent negative whole (some fraction) rest
      | rest => readExponent negative whole none rest

/-- The value of a hexadecimal digit. -/
def hexDigit? (c : Char) : Option Nat :=
  if '0' ≤ c ∧ c ≤ '9' then some (c.toNat - '0'.toNat)
  else if 'a' ≤ c ∧ c ≤ 'f' then some (c.toNat - 'a'.toNat + 10)
  else if 'A' ≤ c ∧ c ≤ 'F' then some (c.toNat - 'A'.toNat + 10)
  else none

/-- Four hexadecimal digits. Fewer than four bytes are too few whatever they are. -/
def readUnit (ls : List Letter) : Except Fault (Nat × List Letter) :=
  if (ls.take 4).foldl (fun n l => n + l.size) 0 < 4 then .error .early
  else match ls with
    | some a :: some b :: some c :: some d :: rest =>
      match hexDigit? a, hexDigit? b, hexDigit? c, hexDigit? d with
      | some a, some b, some c, some d => .ok (((a * 16 + b) * 16 + c) * 16 + d, rest)
      | _, _, _, _ => .error .malformed
    | _ => .error .malformed

/-- What follows the first half of a surrogate pair. -/
inductive SecondHalf where
  | half (unit : Nat) (rest : List Letter)
  | missing
  | fault (f : Fault)

/-- Looks for the second half of a surrogate pair. -/
def secondHalf : List Letter → SecondHalf
  | [] => .fault .early
  | [some '\\'] => .fault .early
  | some '\\' :: some 'u' :: ls =>
    match readUnit ls with
    | .error f => .fault f
    | .ok (n, rest) => if 0xDC00 ≤ n ∧ n ≤ 0xDFFF then .half n rest else .missing
  | _ => .missing

/-- The character that a letter behind a backslash stands for. -/
def escaped? (c : Char) : Option Char :=
  if c = '"' || c = '\\' || c = '/' then some c
  else if c = 'b' then some '\x08'
  else if c = 'f' then some '\x0c'
  else if c = 'n' then some '\n'
  else if c = 'r' then some '\r'
  else if c = 't' then some '\t'
  else none

/-- How a quoted text went so far: its characters, last first; whether an escape stood for no
character; whether a byte did. -/
structure Quoted where
  done : List Char
  broken : Bool
  stray : Bool

/-- The draft of a text that ends in a fault. -/
def Quoted.stop (q : Quoted) (f : Fault) : Progress :=
  if q.broken then ⟨.mangled (some f), none⟩ else .stop f

/-- The draft of a text whose closing quote was met. -/
def Quoted.close (q : Quoted) (rest : List Letter) : Progress :=
  ⟨if q.broken || q.stray then .mangled none else .string (String.ofList q.done.reverse), some rest⟩

/-- Reads a quoted text behind its opening quote; `fuel` bounds the letters read. -/
def readQuoted : Nat → Quoted → List Letter → Progress
  | 0, q, _ => q.stop .early
  | _ + 1, q, [] => q.stop .early
  | fuel + 1, q, none :: ls => readQuoted fuel { q with stray := true } ls
  | fuel + 1, q, some c :: ls =>
    if c = '"' then q.close ls
    else if c.toNat < 0x20 then q.stop .malformed
    else if c ≠ '\\' then readQuoted fuel { q with done := c :: q.done } ls
    else match ls with
      | [] => q.stop .early
      | none :: _ => q.stop .malformed
      | some e :: ls =>
        if e = 'u' then
          match readUnit ls with
          | .error f => q.stop f
          | .ok (n, rest) =>
            -- a second half alone stands for no character
            if 0xDC00 ≤ n ∧ n ≤ 0xDFFF then readQuoted fuel { q with broken := true } rest
            -- no half of a pair, and so a character of its own
            else if n < 0xD800 ∨ 0xDBFF < n then
              readQuoted fuel { q with done := Char.ofNat n :: q.done } rest
            else match secondHalf rest with
              | .fault f => q.stop f
              -- a first half alone; what follows is read for itself
              | .missing => readQuoted fuel { q with broken := true } rest
              | .half m rest =>
                let point := 0x10000 + (n - 0xD800) * 0x400 + (m - 0xDC00)
                readQuoted fuel { q with done := Char.ofNat point :: q.done } rest
        else match escaped? e with
          | some d => readQuoted fuel { q with done := d :: q.done } ls
          | none => q.stop .malformed

/-- The key that a quoted text is. -/
def Draft.key? : Draft → Option String
  | .string s => some s
  | _ => none

mutual

/-- Reads a value; `fuel` bounds the letters read. -/
def readValue : Nat → List Letter → Progress
  | 0, _ => .stop .early
  | fuel + 1, ls =>
    match skipGaps ls with
    | [] => .stop .early
    | none :: _ => .stop .malformed
    | some c :: ls =>
      if c = 'n' then readWord .null "ull".toList ls
      else if c = 't' then readWord (.bool true) "rue".toList ls
      else if c = 'f' then readWord (.bool false) "alse".toList ls
      else if c = '-' then readNumber true ls
      else if (Text.digit? c).isSome then readNumber false (some c :: ls)
      else if c = '"' then readQuoted (fuel + 1) ⟨[], false, false⟩ ls
      else if c = '[' then
        match skipGaps ls with
        | [] => ⟨.array [] (some .early), none⟩
        | some ']' :: rest => ⟨.array [] none, some rest⟩
        | ls => let (items, stop, rest) := readItems fuel ls; ⟨.array items stop, rest⟩
      else if c = '\x7b' then
        match skipGaps ls with
        | [] => ⟨.object [] (some .early), none⟩
        | some '\x7d' :: rest => ⟨.object [] none, some rest⟩
        | ls => let (fields, stop, rest) := readFields fuel ls; ⟨.object fields stop, rest⟩
      else .stop .malformed

/-- Reads the items of an array from the first to the closing bracket: the items, the fault that
stands where a comma or the bracket should, and what is left. -/
def readItems : Nat → List Letter → List Draft × Option Fault × Option (List Letter)
  | 0, _ => ([], some .early, none)
  | fuel + 1, ls =>
    match readValue fuel ls with
    | ⟨d, none⟩ => ([d], none, none)
    | ⟨d, some ls⟩ =>
      match skipGaps ls with
      | [] => ([d], some .early, none)
      | some ',' :: ls =>
        match skipGaps ls with
        | [] => ([d, .fault .early], none, none)
        -- a comma wants another item
        | some ']' :: _ => ([d, .fault .malformed], none, none)
        | ls => let (ds, stop, rest) := readItems fuel ls; (d :: ds, stop, rest)
      | some ']' :: rest => ([d], none, some rest)
      | _ => ([d], some .malformed, none)

/-- Reads the fields of an object from the first to the closing brace. -/
def readFields : Nat → List Letter →
    List (Option String × Draft) × Option Fault × Option (List Letter)
  | 0, _ => ([], some .early, none)
  | fuel + 1, ls =>
    match ls with
    | [] => ([], some .early, none)
    | some '"' :: ls =>
      match readQuoted (fuel + 1) ⟨[], false, false⟩ ls with
      | ⟨d, none⟩ =>
        match d with
        -- the key is no text, and reading stopped inside it
        | .mangled (some f) => ([(none, .fault f)], none, none)
        | .fault f => ([], some f, none)
        | _ => ([], some .malformed, none)
      | ⟨k, some ls⟩ =>
        match skipGaps ls with
        | [] => ([(k.key?, .fault .early)], none, none)
        | some ':' :: ls =>
          match readValue fuel ls with
          | ⟨d, none⟩ => ([(k.key?, d)], none, none)
          | ⟨d, some ls⟩ =>
            match skipGaps ls with
            | [] => ([(k.key?, d)], some .early, none)
            | some ',' :: ls =>
              let (fs, stop, rest) := readFields fuel (skipGaps ls)
              ((k.key?, d) :: fs, stop, rest)
            | some '\x7d' :: rest => ([(k.key?, d)], none, some rest)
            | _ => ([(k.key?, d)], some .malformed, none)
        | _ => ([(k.key?, .fault .malformed)], none, none)
    | _ => ([], some .malformed, none)

end

/-- **A whole text as read**: the value, and whether something but blanks follows it. -/
structure Document where
  draft : Draft
  trailing : Bool

/-- Reads a text, given by its letters. Each letter costs at most two units of fuel. -/
def Document.ofLetters (ls : List Letter) : Document :=
  match readValue (2 * ls.length + 2) ls with
  | ⟨d, none⟩ => ⟨d, false⟩
  | ⟨d, some rest⟩ => ⟨d, !(skipGaps rest).isEmpty⟩

/-- Reads a text. -/
def Document.ofText (s : String) : Document := .ofLetters (Text.letters s)

end BytecodeDebugger.Json
