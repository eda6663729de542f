import BytecodeDebugger.Chunk.Reader
import BytecodeDebugger.Proofs.Json.Records
import Mathlib.Data.List.GetD

/-!
# Chunks are read as they are spelled

What spells a chunk is said part by part (`Chunk.Spells`). The fields of an object stand in any order
among fields with other keys, a field that holds its default may be missing, and an instruction may leave
out operands at its end that are zero. There is one spelling with everything in it (`Chunk.toJson`). What
spells no chunk because of an instruction (`Chunk.Flawed`) is refused, at whatever depth the function
stands that the instruction belongs to.

A function is read within a number of levels; the nesting of the value is enough of them, as functions
stand in an array in an object of the next.

Main statements:

* `Proto.Spells.reads` — a function is read as it is spelled;
* `Proto.Flawed.refuses` — a function is refused for an instruction in it or in a function below it;
* `Chunk.reading_exact` — the same for chunks, and what they depend on.
-/

namespace BytecodeDebugger

open Json (Decoder Draft Scope Says Holds IsText IsText? IsNat Lists)
open Json.Decoder (Field Reads Refuses)

/-! ### Instructions -/

namespace Instruction

/-- An integer of 32 bits. -/
def IsOperand (n : Int) : Prop := -2147483648 ≤ n ∧ n ≤ 2147483647

/-- **An instruction is spelled** by its code and its operands, perhaps without zeros at the end. -/
inductive Spells (i : Instruction) : Json → Prop where
  | array {operands : List Int} (zeros : Nat)
      (h : operands ++ List.replicate zeros 0 = [i.a, i.b, i.c]) (range : ∀ n ∈ operands, IsOperand n) :
    Spells i (.array (.int i.code.toNat :: operands.map .int))

/-- The spelling with all operands. -/
def toJson (i : Instruction) : Json := .array [.int i.code.toNat, .int i.a, .int i.b, .int i.c]

/-- An instruction whose operands have 32 bits. -/
structure Fits (i : Instruction) : Prop where
  a : IsOperand i.a
  b : IsOperand i.b
  c : IsOperand i.c

/-- **What is no instruction**: an array without numbers or with more than four, with something in it
that is no integer of 32 bits, or with a code that has more than eight bits. -/
inductive Flawed : Json → Prop where
  | empty : Flawed (.array [])
  | long {items : List Json} (h : 4 < items.length) : Flawed (.array items)
  | operand {items : List Json} {j : Json} (hmem : j ∈ items) (h : ∀ n, j = .int n → ¬ IsOperand n) :
    Flawed (.array items)
  | code {n : Int} {items : List Json} (h : n < 0 ∨ 255 < n) : Flawed (.array (.int n :: items))

theorem Fits.spells {i : Instruction} (h : i.Fits) : i.Spells i.toJson := by
  refine @Spells.array i [i.a, i.b, i.c] 0 rfl ?_
  intro n hn
  simp only [List.mem_cons, List.not_mem_nil, or_false] at hn
  rcases hn with rfl | rfl | rfl
  · exact h.a
  · exact h.b
  · exact h.c

theorem operand_reads {n : Int} (h : IsOperand n) : Reads operand (.int n) n := fun _ _ => if_pos h

/-- Operands that are left out read as the zeros that they are. -/
theorem ofInts_code {i : Instruction} {operands : List Int} {zeros : Nat}
    (h : operands ++ List.replicate zeros 0 = [i.a, i.b, i.c]) :
    ofInts (i.code.toNat :: operands) = .ok i := by
  have hcode : i.code.toNat < 256 := i.code.toNat_lt
  have hlength : operands.length + zeros = 3 := by
    have hlengths := congrArg List.length h
    rwa [List.length_append, List.length_replicate] at hlengths
  have hoperand : ∀ k, operands.getD k 0 = [i.a, i.b, i.c].getD k 0 := by
    -- behind the operands that are there the zeros begin, and behind the zeros nothing
    intro k
    rw [← h]
    by_cases hk : k < operands.length
    · rw [List.getD_append _ _ _ _ hk]
    · rw [List.getD_append_right _ _ _ _ (Nat.le_of_not_lt hk),
        List.getD_eq_default _ _ (Nat.le_of_not_lt hk)]
      by_cases hzero : k - operands.length < zeros
      · rw [List.getD_eq_getElem _ _ (by simpa using hzero), List.getElem_replicate]
      · rw [List.getD_eq_default _ _ (by simpa using hzero)]
  rw [ofInts, if_neg (by omega), if_neg (by omega), hoperand, hoperand, hoperand]
  simp

/-- **An instruction is read as it is spelled.** -/
theorem Spells.reads {i : Instruction} {j : Json} (h : i.Spells j) : Reads decoder j i := by
  obtain @⟨operands, zeros, hzeros, hrange⟩ := h
  -- a code is a byte, and passes for an operand when the list is read
  have hcode : IsOperand i.code.toNat := by
    have hlt : i.code.toNat < 256 := i.code.toNat_lt
    exact ⟨by omega, by omega⟩
  have hitems : List.Forall₂ (fun n j => Reads operand j n) ((i.code.toNat : Int) :: operands)
      (.int i.code.toNat :: operands.map .int) := by
    refine .cons (operand_reads hcode) ?_
    rw [List.forall₂_map_right_iff, List.forall₂_same]
    exact fun n hn => operand_reads (hrange n hn)
  intro scope hnesting
  have hints := Decoder.list_reads hitems scope hnesting
  change (Decoder.list operand scope _).bind _ = _
  rw [hints, Except.bind, ofInts_code hzeros]
  rfl

theorem operand_refuses {j : Json} (h : ∀ n, j = .int n → ¬ IsOperand n) : Refuses operand j := by
  intro scope
  cases j with
  | int n =>
    have hbounds : ¬ IsOperand n := h n rfl
    unfold IsOperand at hbounds
    rw [Draft.ofJson]
    change (if _ then _ else _ : Except JsonError Int).toOption = none
    rw [if_neg hbounds]
    rfl
  | null | bool | float | string | array | object => rfl

/-- An array is refused if what it is read as is no instruction. -/
theorem decoder_refuses {items : List Json}
    (h : ∀ ints scope, List.Forall₂ (fun n j => operand scope (Draft.ofJson j) = .ok n) ints items →
      ∃ fault, ofInts ints = .error fault) : Refuses decoder (.array items) := by
  intro scope
  refine Decoder.bind_toOption_none_of_ok fun ints hints => ?_
  obtain ⟨inner, hitems⟩ := Decoder.list_inv hints
  obtain ⟨fault, hfault⟩ := h ints inner hitems
  rw [hfault]
  rfl

/-- **What is no instruction is refused.** -/
theorem Flawed.refuses {j : Json} (h : Flawed j) : Refuses decoder j := by
  cases h with
  | empty =>
    -- every flaw but a bad operand shows once the list has been read
    refine decoder_refuses fun ints scope hitems => ?_
    cases hitems
    exact ⟨.empty, rfl⟩
  | @long items hlength =>
    refine decoder_refuses fun ints scope hitems => ?_
    rw [← hitems.length_eq] at hlength
    cases ints with
    | nil => cases hlength
    | cons code operands =>
      have hmany : 3 < operands.length := Nat.lt_of_succ_lt_succ hlength
      rw [ofInts, if_pos hmany]
      by_cases hcode : code < 0 ∨ 255 < code
      · exact ⟨_, if_pos hcode⟩
      · exact ⟨_, if_neg hcode⟩
  | operand hmem h =>
    intro scope
    exact Decoder.bind_toOption_none (Decoder.list_refuses hmem (operand_refuses h) scope)
  | @code n items h =>
    refine decoder_refuses fun ints scope hitems => ?_
    cases hitems with
    | @cons code _ operands _ hcode _ =>
      -- the code that is read is the code that stands there
      have hsame : code = n := by
        unfold Instruction.operand at hcode
        rw [Draft.ofJson, Decoder.int] at hcode
        split at hcode
        · exact (Except.ok.inj hcode).symm
        · cases hcode
      rw [hsame, ofInts, if_pos h]
      exact ⟨_, rfl⟩

end Instruction

/-! ### Constants -/

namespace Constant

/-- **A constant is spelled** by a value of its kind, and a number also by an integer that it is nearest
to. -/
inductive Spells : Constant → Json → Prop where
  | nil : Spells .nil .null
  | boolean (b : Bool) : Spells (.boolean b) (.bool b)
  | string (s : String) : Spells (.string s) (.string s)
  | float (x : Float) : Spells (.number x) (.float x)
  | int {n : Int} (h : Json.minWord ≤ n ∧ n ≤ Text.maxWord) : Spells (.number (Json.intFloat n)) (.int n)

/-- The spelling of a constant with numbers as floats. -/
def toJson : Constant → Json
  | .nil => .null
  | .boolean b => .bool b
  | .number x => .ofFloat x
  | .string s => .string s

/-- A constant that is no number or a finite one. -/
def Fits : Constant → Prop
  | .number x => ∃ negative mantissa exponent,
      Binary64.ofFloat x = .finite negative mantissa exponent
  | _ => True

theorem Fits.spells {k : Constant} (h : k.Fits) : k.Spells k.toJson := by
  cases k with
  | nil => exact .nil
  | boolean b => exact .boolean b
  | string s => exact .string s
  | number x =>
    obtain ⟨negative, mantissa, exponent, hfinite⟩ := h
    have hfloat : Json.ofFloat x = .float x := by
      unfold Json.ofFloat
      rw [hfinite]
    exact (hfloat ▸ Spells.float x : Spells (.number x) (Json.ofFloat x))

/-- **A constant is read as it is spelled.** -/
theorem Spells.reads {k : Constant} {j : Json} (h : k.Spells j) : Reads decoder j k := by
  intro scope hnesting
  have hjson : Decoder.json scope (Draft.ofJson j) = .ok j := Decoder.any_ofJson hnesting
  unfold decoder
  rw [hjson]
  cases h with
  | nil | boolean | string | float | int => rfl

end Constant

/-! ### Local variables -/

namespace LocalVar

/-- **A local variable is spelled** by its name and where it is live. -/
inductive Spells (v : LocalVar) : Json → Prop where
  | object {fields : List (String × Json)} (distinct : (fields.map Prod.fst).Nodup)
      (name : Says fields "varname" False (IsText v.name))
      (start : Says fields "startpc" False (IsNat v.startPc))
      (stop : Says fields "endpc" False (IsNat v.endPc)) : Spells v (.object fields)

/-- The fields of a local variable. -/
def fields (v : LocalVar) : List (String × Json) :=
  [("varname", .string v.name), ("startpc", .nat v.startPc), ("endpc", .nat v.endPc)]

/-- The spelling of a local variable with its own fields only. -/
def toJson (v : LocalVar) : Json := .object v.fields

/-- A local variable whose numbers have 64 bits. -/
structure Fits (v : LocalVar) : Prop where
  start : v.startPc ≤ Text.maxWord
  stop : v.endPc ≤ Text.maxWord

theorem Fits.spells {v : LocalVar} (h : v.Fits) : v.Spells v.toJson := by
  have hdistinct : (v.fields.map Prod.fst).Nodup := by
    change ["varname", "startpc", "endpc"].Nodup
    decide
  exact .object hdistinct
    (.of_mem hdistinct (by simp [fields]) rfl)
    (.of_mem hdistinct (j := .nat v.startPc) (by simp [fields]) ⟨h.start, rfl⟩)
    (.of_mem hdistinct (j := .nat v.endPc) (by simp [fields]) ⟨h.stop, rfl⟩)

/-- A local variable with the fields under some keys only. -/
def only (v : LocalVar) (keys : List String) : LocalVar where
  name := if "varname" ∈ keys then v.name else ""
  startPc := if "startpc" ∈ keys then v.startPc else 0
  endPc := if "endpc" ∈ keys then v.endPc else 0

/-- **A local variable is read as it is spelled.** -/
theorem Spells.reads {v : LocalVar} {j : Json} (h : v.Spells j) : Reads decoder j v := by
  obtain ⟨hdistinct, hname, hstart, hstop⟩ := h
  refine Decoder.record_reads v.only hdistinct ?_ rfl ?_
  · simp only [List.forall_mem_cons]
    -- the three fields are read, each by its own reader
    exact ⟨Field.fills_needed hname (fun _ => Decoder.string_reads) (by simp [only]),
      Field.fills_needed hstart (fun _ => Decoder.nat_reads) (by simp [only]),
      Field.fills_needed hstop (fun _ => Decoder.nat_reads) (by simp [only]), nofun⟩
  · -- what was met is what the value holds
    intro met hmet
    simp only [List.forall_mem_cons] at hmet
    obtain ⟨hmetName, hmetStart, hmetStop, -⟩ := hmet
    unfold only
    rw [hname.filled False.elim hmetName, hstart.filled False.elim hmetStart,
      hstop.filled False.elim hmetStop]

end LocalVar

/-! ### Functions -/

namespace Proto

/-- **What an object says about a function**, but for the functions nested in it. -/
structure Told (p : Proto) (fields : List (String × Json)) : Prop where
  distinct : (fields.map Prod.fst).Nodup
  name : Says fields "name" (p.name = none) (IsText? p.name)
  numParams : Says fields "numParams" (p.numParams = 0) (IsNat p.numParams)
  instructions : Says fields "instructions" False (Lists Instruction.Spells p.instructions.toList)
  constants : Says fields "constants" (p.constants = #[]) (Lists Constant.Spells p.constants.toList)
  locals : Says fields "locals" (p.locals = []) (Lists LocalVar.Spells p.locals)
  upvalues : Says fields "upvalues" (p.upvalues = []) (Lists IsText p.upvalues)
  lines : Says fields "linePositions" (p.lines = #[]) (Lists IsNat p.lines.toList)

/-- **A function is spelled** by what is said about it, with the spellings of the functions nested in
it. -/
inductive Spells : Proto → Json → Prop where
  | object {p : Proto} {fields : List (String × Json)} {items : List Json} (told : p.Told fields)
      (protos : Says fields "protos" (p.protos = []) (· = .array items))
      (nested : List.Forall₂ Spells p.protos items) : Spells p (.object fields)

/-- The fields of a function, but for the functions nested in it. -/
def fields (p : Proto) : List (String × Json) :=
  [("name", .option .string p.name), ("numParams", .nat p.numParams),
    ("instructions", .array (p.instructions.toList.map Instruction.toJson)),
    ("constants", .array (p.constants.toList.map Constant.toJson)),
    ("locals", .array (p.locals.map LocalVar.toJson)), ("upvalues", .strings p.upvalues),
    ("linePositions", .array (p.lines.toList.map .nat))]

mutual

/-- The spelling of a function with all of its own fields and no others. -/
def toJson : Proto → Json
  | ⟨name, numParams, instructions, constants, locals, upvalues, lines, protos⟩ =>
    .object (fields ⟨name, numParams, instructions, constants, locals, upvalues, lines, []⟩
      ++ [("protos", .array (allToJson protos))])

/-- The spellings of functions. -/
def allToJson : List Proto → List Json
  | [] => []
  | p :: ps => p.toJson :: allToJson ps

end

/-- A function whose numbers have the bits they should, but for the functions nested in it. -/
structure FitsOwn (p : Proto) : Prop where
  numParams : p.numParams ≤ Text.maxWord
  instructions : ∀ i ∈ p.instructions.toList, i.Fits
  constants : ∀ k ∈ p.constants.toList, k.Fits
  locals : ∀ v ∈ p.locals, v.Fits
  lines : ∀ n ∈ p.lines.toList, n ≤ Text.maxWord

/-- **A function that there can be**: its numbers have the bits they should, at every depth. -/
inductive Fits : Proto → Prop where
  | nested {p : Proto} (own : p.FitsOwn) (nested : ∀ q ∈ p.protos, Fits q) : Fits p

theorem allToJson_eq_map (ps : List Proto) : allToJson ps = ps.map toJson := by
  induction ps with
  | nil => rfl
  | cons p ps ih => rw [allToJson, List.map_cons, ih]

theorem toJson_eq (p : Proto) :
    p.toJson = .object (p.fields ++ [("protos", .array (p.protos.map toJson))]) := by
  obtain ⟨name, numParams, instructions, constants, locals, upvalues, lines, protos⟩ := p
  rw [toJson, allToJson_eq_map]
  rfl

theorem FitsOwn.told {p : Proto} (h : p.FitsOwn) (protos : Json) :
    p.Told (p.fields ++ [("protos", protos)]) := by
  -- the keys are known, so that no two of them clash
  have hdistinct : ((p.fields ++ [("protos", protos)]).map Prod.fst).Nodup := by
    change ["name", "numParams", "instructions", "constants", "locals", "upvalues", "linePositions",
      "protos"].Nodup
    decide
  have hmem : ∀ f ∈ p.fields, f ∈ p.fields ++ [("protos", protos)] := fun f hf =>
    List.mem_append_left _ hf
  exact {
    distinct := hdistinct
    name := .of_mem hdistinct (hmem _ (by simp [fields])) rfl
    numParams := .of_mem hdistinct (j := .nat p.numParams) (hmem _ (by simp [fields]))
      ⟨h.numParams, rfl⟩
    instructions := .of_mem hdistinct (hmem _ (by simp [fields]))
      (Json.lists_map fun i hi => (h.instructions i hi).spells)
    constants := .of_mem hdistinct (hmem _ (by simp [fields]))
      (Json.lists_map fun k hk => (h.constants k hk).spells)
    locals := .of_mem hdistinct (hmem _ (by simp [fields]))
      (Json.lists_map fun v hv => (h.locals v hv).spells)
    upvalues := .of_mem hdistinct (hmem _ (by simp [fields, Json.strings]))
      (Json.lists_map fun s _ => rfl)
    lines := .of_mem hdistinct (hmem _ (by simp [fields]))
      (Json.lists_map fun n hn => ⟨h.lines n hn, rfl⟩) }

theorem Fits.spells {p : Proto} (h : p.Fits) : p.Spells p.toJson := by
  induction h with
  | @nested p own nested ih =>
    rw [toJson_eq]
    have htold := own.told (.array (p.protos.map toJson))
    refine .object htold (.of_mem htold.distinct
      (List.mem_append_right _ (List.mem_singleton.mpr rfl)) rfl) ?_
    rw [List.forall₂_map_right_iff, List.forall₂_same]
    exact ih

/-- A function with the fields under some keys only. -/
def only (p : Proto) (keys : List String) : Proto where
  name := if "name" ∈ keys then p.name else none
  numParams := if "numParams" ∈ keys then p.numParams else 0
  instructions := if "instructions" ∈ keys then p.instructions else #[]
  constants := if "constants" ∈ keys then p.constants else #[]
  locals := if "locals" ∈ keys then p.locals else []
  upvalues := if "upvalues" ∈ keys then p.upvalues else []
  lines := if "linePositions" ∈ keys then p.lines else #[]
  protos := if "protos" ∈ keys then p.protos else []

/-- **A function is read as it is spelled** within as many levels as the spelling nests, and one. -/
theorem Spells.reads {levels : Nat} {p : Proto} {j : Json} (h : p.Spells j)
    (hlevels : j.nesting < levels) : Reads (decoder levels) j p := by
  -- on the levels, as the reader does; the functions nested in this one stand in two containers more
  induction levels generalizing p j with
  | zero => cases hlevels
  | succ levels ih =>
    obtain @⟨_, fields, items, told, hprotos, hnested⟩ := h
    have hread : ∀ j, j = .array items ∧ ("protos", j) ∈ fields →
        Reads (Decoder.list (decoder levels)) j p.protos := by
      rintro j ⟨rfl, hmem⟩
      have hitems : ∀ j ∈ items, j.nesting < levels := by
        intro j hj
        have hwithin := Json.nesting_le_itemsNesting hj
        have harray : Json.itemsNesting items + 1 ≤ Json.fieldsNesting fields :=
          Json.nesting_le_fieldsNesting hmem
        have hobject : Json.fieldsNesting fields + 1 < levels + 1 := hlevels
        omega
      have heach : List.Forall₂ (fun j q => j.nesting < levels ∧ Spells q j) items p.protos :=
        (List.forall₂_and_left items p.protos).mpr ⟨hitems, List.Forall₂.flip hnested⟩
      have hreads : List.Forall₂ (fun j q => Reads (decoder levels) j q) items p.protos :=
        heach.imp fun j q h => ih h.2 h.1
      exact Decoder.list_reads hreads.flip
    -- the functions nested in this one may be missing, like the other lists
    have hgiven : Says fields "protos" (p.protos = [])
        (fun j => j = .array items ∧ ("protos", j) ∈ fields) :=
      ⟨fun j hj => ⟨hprotos.given j hj, hj⟩, hprotos.missing⟩
    unfold decoder
    refine Decoder.record_reads p.only told.distinct ?_ rfl ?_
    · simp only [List.forall_mem_cons]
      exact ⟨Field.fills_optional told.name (fun _ => Decoder.option_reads) (by simp [only]),
        Field.fills_optional told.numParams (fun _ => Decoder.nat_reads) (by simp [only]),
        Field.fills_needed told.instructions
          (fun _ => Decoder.lists_reads fun _ _ => Instruction.Spells.reads) (by simp [only]),
        Field.fills_optional told.constants
          (fun _ => Decoder.lists_reads fun _ _ => Constant.Spells.reads) (by simp [only]),
        Field.fills_optional told.locals
          (fun _ => Decoder.lists_reads fun _ _ => LocalVar.Spells.reads) (by simp [only]),
        Field.fills_optional told.upvalues
          (fun _ => Decoder.lists_reads fun _ _ => Decoder.string_reads) (by simp [only]),
        Field.fills_optional told.lines
          (fun _ => Decoder.lists_reads fun _ _ => Decoder.nat_reads) (by simp [only]),
        Field.fills_optional hgiven hread (by simp [only]), nofun⟩
    · intro met hmet
      simp only [List.forall_mem_cons] at hmet
      obtain ⟨hname, hparams, hinstructions, hconstants, hlocals, hupvalues, hlines, hprotos', -⟩ :=
        hmet
      unfold only
      -- a field that was not met was missing, and the function holds the default there
      rw [told.name.filled id hname, told.numParams.filled id hparams,
        told.instructions.filled False.elim hinstructions, told.constants.filled id hconstants,
        told.locals.filled id hlocals, told.upvalues.filled id hupvalues, told.lines.filled id hlines,
        hprotos.filled id hprotos']
      cases p
      rfl

/-- **An object or array that is no function**, because of what is wrong with its instructions: one of
them is none, or they are missing, or that holds of a function nested in it. -/
inductive Flawed : Json → Prop where
  | instruction {j i : Json} {items : List Json} (hholds : Holds j "instructions" 2 (.array items))
      (hmem : i ∈ items) (h : Instruction.Flawed i) : Flawed j
  | missing {fields : List (String × Json)} (h : "instructions" ∉ fields.map Prod.fst) :
    Flawed (.object fields)
  | nested {j q : Json} {items : List Json} (hholds : Holds j "protos" 7 (.array items))
      (hmem : q ∈ items) (h : Flawed q) : Flawed j

/-- **A function is refused for its instructions**, or for those of a function below it. -/
theorem Flawed.refuses {j : Json} (h : Flawed j) (levels : Nat) : Refuses (decoder levels) j := by
  -- over where the flaw is; without levels nothing is read at all
  induction h generalizing levels with
  | instruction hholds hmem h =>
    cases levels with
    | zero => exact fun _ => rfl
    | succ levels =>
      unfold decoder
      refine Decoder.record_refuses hholds rfl rfl (by simp [Field.optional, Field.needed]) ?_
      exact (Decoder.list_refuses hmem h.refuses).map _
  | missing h =>
    cases levels with
    | zero => exact fun _ => rfl
    | succ levels =>
      intro scope
      unfold decoder
      exact Decoder.record_missing
        (List.mem_cons_of_mem _ (List.mem_cons_of_mem _ List.mem_cons_self)) rfl
        (Json.not_mem_ofFields h)
  | nested hholds hmem _ ih =>
    cases levels with
    | zero => exact fun _ => rfl
    | succ levels =>
      unfold decoder
      refine Decoder.record_refuses hholds rfl rfl (by simp [Field.optional, Field.needed]) ?_
      exact (Decoder.list_refuses hmem (ih levels)).map _

end Proto

/-! ### Chunks -/

namespace Chunk

/-- **A chunk is spelled** by where its source is and by its main function. -/
inductive Spells (c : Chunk) : Json → Prop where
  | object {fields : List (String × Json)} (distinct : (fields.map Prod.fst).Nodup)
      (sourceName : Says fields "sourceName" (c.sourceName = none) (IsText? c.sourceName))
      (sourcePath : Says fields "sourcePath" (c.sourcePath = none) (IsText? c.sourcePath))
      (main : Says fields "main" False c.main.Spells) : Spells c (.object fields)

/-- The fields of a chunk. -/
def fields (c : Chunk) : List (String × Json) :=
  [("sourceName", .option .string c.sourceName), ("sourcePath", .option .string c.sourcePath),
    ("main", c.main.toJson)]

/-- The spelling of a chunk with all of its own fields and no others. -/
def toJson (c : Chunk) : Json := .object c.fields

theorem spells_toJson {c : Chunk} (h : c.main.Fits) : c.Spells c.toJson := by
  have hdistinct : (c.fields.map Prod.fst).Nodup := by
    change ["sourceName", "sourcePath", "main"].Nodup
    decide
  exact .object hdistinct (.of_mem hdistinct (by simp [fields]) rfl)
    (.of_mem hdistinct (by simp [fields]) rfl) (.of_mem hdistinct (by simp [fields]) h.spells)

/-- A chunk with the fields under some keys only. -/
def only (c : Chunk) (keys : List String) : Chunk where
  sourceName := if "sourceName" ∈ keys then c.sourceName else none
  sourcePath := if "sourcePath" ∈ keys then c.sourcePath else none
  main := if "main" ∈ keys then c.main else {}

theorem Spells.reads {c : Chunk} {j : Json} (h : c.Spells j) : Reads decoder j c := by
  obtain ⟨hdistinct, hname, hpath, hmain⟩ := h
  -- the document is one level above the outermost function
  have hread : ∀ j, c.main.Spells j → Reads Proto.nested j c.main := fun j hj scope hnesting =>
    hj.reads (Nat.lt_succ_of_le hnesting) scope hnesting
  refine Decoder.record_reads c.only hdistinct ?_ rfl ?_
  · simp only [List.forall_mem_cons]
    exact ⟨Field.fills_optional hname (fun _ => Decoder.option_reads) (by simp [only]),
      Field.fills_optional hpath (fun _ => Decoder.option_reads) (by simp [only]),
      Field.fills_needed hmain hread (by simp [only]), nofun⟩
  · intro met hmet
    simp only [List.forall_mem_cons] at hmet
    obtain ⟨hmetName, hmetPath, hmetMain, -⟩ := hmet
    unfold only
    rw [hname.filled id hmetName, hpath.filled id hmetPath, hmain.filled False.elim hmetMain]

/-- **What is no chunk** because of the instructions of a function, at whatever depth. -/
inductive Flawed : Json → Prop where
  | main {j main : Json} (hholds : Holds j "main" 2 main) (h : Proto.Flawed main) : Flawed j

theorem Flawed.refuses {j : Json} (h : Flawed j) : Refuses decoder j := by
  obtain ⟨hholds, hmain⟩ := h
  refine Decoder.record_refuses hholds rfl rfl (by simp [Field.optional, Field.needed]) ?_
  exact Refuses.map (fun scope => hmain.refuses (scope.depth + 1) scope) _

/-- **Reading chunks is exact.** A chunk is read from every object that spells it, and as it was, whatever
the order of the fields, with other fields among them, without those that hold their defaults, and with
instructions that leave out zeros at the end; the object with everything in it is one that spells it. What
is flawed in an instruction, or without instructions, is refused as a whole, however deep the flaw. -/
theorem reading_exact (c : Chunk) (j : Json) :
    (c.main.Fits → c.Spells c.toJson) ∧ (c.Spells j → ofJson j = .ok c) ∧
      (Flawed j → ∃ e, ofJson j = .error e) := by
  refine ⟨spells_toJson, fun h => h.reads _ (Nat.le_refl _), fun h => ?_⟩
  have hnone : (ofJson j).toOption = none := h.refuses _
  cases hread : ofJson j with
  | error e => exact ⟨e, rfl⟩
  | ok c' =>
    rw [hread] at hnone
    cases hnone

/-- A chunk with one function in another is read without what it leaves out and with a field of another
kind in it; with a code of more than eight bits in the inner function it is refused. -/
theorem reads_nested_functions :
    ofJson (.object [("version", .int 2), ("main", .object [
          ("protos", .array [.object [("instructions", .array [.array [.int 30]])]]),
          ("constants", .array [.int 7, .string "x"]),
          ("instructions", .array [.array [.int 36], .array [.int 1, .int 0, .int 1]])])]) =
        .ok { main := {
          instructions := #[⟨36, 0, 0, 0⟩, ⟨1, 0, 1, 0⟩]
          constants := #[.number (Json.intFloat 7), .string "x"]
          protos := [{ instructions := #[⟨30, 0, 0, 0⟩] }] } } ∧
      ∃ e, ofJson (.object [("main", .object [("instructions", .array [.array [.int 30]]),
          ("protos", .array [.object [("instructions", .array [.array [.int 300]])]])])]) = .error e := by
  -- from the inside out: the instructions, the nested function and the one around it
  have hreturn : Instruction.Spells ⟨30, 0, 0, 0⟩ (.array [.int 30]) :=
    @Instruction.Spells.array ⟨30, 0, 0, 0⟩ [] 3 rfl nofun
  have hclosure : Instruction.Spells ⟨36, 0, 0, 0⟩ (.array [.int 36]) :=
    @Instruction.Spells.array ⟨36, 0, 0, 0⟩ [] 3 rfl nofun
  have hload : Instruction.Spells ⟨1, 0, 1, 0⟩ (.array [.int 1, .int 0, .int 1]) :=
    @Instruction.Spells.array ⟨1, 0, 1, 0⟩ [0, 1] 1 rfl
      (by simp [Instruction.IsOperand])
  have hinner : Proto.Spells { instructions := #[⟨30, 0, 0, 0⟩] }
      (.object [("instructions", .array [.array [.int 30]])]) :=
    @Proto.Spells.object _ _ [] {
      distinct := by simp
      name := .of_not_mem (by simp) rfl
      numParams := .of_not_mem (by simp) rfl
      instructions := .of_mem (by simp) (by simp) ⟨_, rfl, .cons hreturn .nil⟩
      constants := .of_not_mem (by simp) rfl
      locals := .of_not_mem (by simp) rfl
      upvalues := .of_not_mem (by simp) rfl
      lines := .of_not_mem (by simp) rfl } (.of_not_mem (by simp) rfl) .nil
  have houter : Proto.Spells {
      instructions := #[⟨36, 0, 0, 0⟩, ⟨1, 0, 1, 0⟩]
      constants := #[.number (Json.intFloat 7), .string "x"]
      protos := [{ instructions := #[⟨30, 0, 0, 0⟩] }] } (.object [
        ("protos", .array [.object [("instructions", .array [.array [.int 30]])]]),
        ("constants", .array [.int 7, .string "x"]),
        ("instructions", .array [.array [.int 36], .array [.int 1, .int 0, .int 1]])]) :=
    .object {
      distinct := by simp
      name := .of_not_mem (by simp) rfl
      numParams := .of_not_mem (by simp) rfl
      instructions := .of_mem (by simp) (by simp) ⟨_, rfl, .cons hclosure (.cons hload .nil)⟩
      constants := .of_mem (by simp) (by simp)
        ⟨_, rfl, .cons (.int (by decide)) (.cons (.string "x") .nil)⟩
      locals := .of_not_mem (by simp) rfl
      upvalues := .of_not_mem (by simp) rfl
      lines := .of_not_mem (by simp) rfl }
      (.of_mem (by simp) List.mem_cons_self rfl) (.cons hinner .nil)
  refine ⟨(reading_exact _ _).2.1 ?_, (reading_exact { main := {} } _).2.2 ?_⟩
  · exact .object (by simp) (.of_not_mem (by simp) rfl) (.of_not_mem (by simp) rfl)
      (.of_mem (by simp) (List.mem_cons_of_mem _ List.mem_cons_self) houter)
  · have hcode : Instruction.Flawed (.array [.int 300]) := .code (by decide)
    have hflawed : Proto.Flawed (.object [("instructions", .array [.array [.int 300]])]) :=
      .instruction (.key List.mem_cons_self) List.mem_cons_self hcode
    exact .main (.key List.mem_cons_self)
      (.nested (.key (List.mem_cons_of_mem _ List.mem_cons_self)) List.mem_cons_self hflawed)

end Chunk

end BytecodeDebugger
