import BytecodeDebugger.Proofs.Json.Decoding
import Mathlib.Data.List.Forall2
import Mathlib.Data.List.Nodup

/-!
# Records spelled as objects

An object spells a record if each of its fields, where it is there, spells that field of the record, and
a field that is missing stands for what the record holds without it (`Says`). Nothing is said about the
order of the fields, and nothing about fields that the record does not know. Reading such an object fills
the record one field at a time, so that at each moment it holds what it should under the keys met so far.

A value is refused where one of its parts is refused, however deep the part stands.

Main statements:

* `Decoder.record_reads` — an object is read as the record that it spells;
* `Decoder.list_refuses`, `Decoder.record_refuses` — what holds a refused part is refused.
-/

namespace BytecodeDebugger.Json

/-! ### Spellings -/

section Spellings

variable {α : Type}

/-- **What an object says about a field**: a value under its key spells the field, and without the key
the field is `left` as it is. -/
structure Says (fields : List (String × Json)) (key : String) (left : Prop) (spells : Json → Prop) :
    Prop where
  given : ∀ j, (key, j) ∈ fields → spells j
  missing : key ∉ fields.map Prod.fst → left

/-- An array spells a list if its items spell the items of the list. -/
def Lists (spells : α → Json → Prop) (as : List α) (j : Json) : Prop :=
  ∃ items, j = .array items ∧ List.Forall₂ spells as items

/-- A text is spelled as it is. -/
def IsText (s : String) (j : Json) : Prop := j = .string s

/-- A natural number of 64 bits is spelled as it is. -/
def IsNat (n : Nat) (j : Json) : Prop := n ≤ Text.maxWord ∧ j = .nat n

/-- A text that there may be is spelled as it is, and null stands for none. -/
def IsText? (s : Option String) (j : Json) : Prop := j = .option .string s

/-- **What stands at a field**: under its key in an object, or at its place in an array. -/
inductive Holds : Json → String → Nat → Json → Prop where
  | key {fields : List (String × Json)} {key : String} {place : Nat} {j : Json}
      (h : (key, j) ∈ fields) : Holds (.object fields) key place j
  | place {items : List Json} {key : String} {place : Nat} {j : Json}
      (h : items[place]? = some j) : Holds (.array items) key place j

variable {fields : List (String × Json)} {key : String} {left : Prop} {spells : Json → Prop}

/-- A field whose value stands in an object is what the object says about it. -/
theorem Says.of_mem (hdistinct : (fields.map Prod.fst).Nodup) {j : Json} (h : (key, j) ∈ fields)
    (hspells : spells j) : Says fields key left spells where
  given j' h' := by
    have hsame : (key, j') = (key, j) := List.inj_on_of_nodup_map hdistinct h' h rfl
    rw [(Prod.mk.inj hsame).2]
    exact hspells
  missing hmissing := absurd (List.mem_map_of_mem (f := Prod.fst) h) hmissing

/-- A field that is missing is left as it is. -/
theorem Says.of_not_mem (h : key ∉ fields.map Prod.fst) (hleft : left) :
    Says fields key left spells where
  given _ hj := absurd (List.mem_map_of_mem (f := Prod.fst) hj) h
  missing _ := hleft

/-- A field that must be there is there. -/
theorem Says.mem (h : Says fields key False spells) : key ∈ fields.map Prod.fst :=
  Decidable.of_not_not h.missing

/-- Once every field of an object is met, a field holds what the object says about it. -/
theorem Says.filled (h : Says fields key left spells) {a blank : α} (hleft : left → a = blank)
    {keys : List String} (hmet : key ∈ fields.map Prod.fst → key ∈ keys) :
    (if key ∈ keys then a else blank) = a := by
  by_cases hkey : key ∈ keys
  · exact if_pos hkey
  · rw [if_neg hkey]
    exact (hleft (h.missing fun hmem => hkey (hmet hmem))).symm

/-- The spelling of a list item by item. -/
theorem lists_map {spells : α → Json → Prop} {f : α → Json} {as : List α}
    (h : ∀ a ∈ as, spells a (f a)) : Lists spells as (.array (as.map f)) := by
  refine ⟨as.map f, rfl, ?_⟩
  rw [List.forall₂_map_right_iff, List.forall₂_same]
  exact h

end Spellings

/-! ### Drafts without faults -/

mutual

/-- A value is passed over without a fault. -/
theorem passFault_ofJson : ∀ j : Json, (Draft.ofJson j).passFault = none
  | .null => by rw [Draft.ofJson, Draft.passFault] <;> nofun
  | .bool _ => by rw [Draft.ofJson, Draft.passFault] <;> nofun
  | .int _ => by rw [Draft.ofJson, Draft.passFault] <;> nofun
  | .float _ => by rw [Draft.ofJson, Draft.passFault] <;> nofun
  | .string _ => by rw [Draft.ofJson, Draft.passFault] <;> nofun
  | .array items => by rw [Draft.ofJson, Draft.passFault, passItems_ofItems items, Option.none_or]
  | .object fields => by
    rw [Draft.ofJson, Draft.passFault, passFields_ofFields fields, Option.none_or]

theorem passItems_ofItems : ∀ js : List Json, Draft.passItems (Draft.ofItems js) = none
  | [] => by rw [Draft.ofItems, Draft.passItems]
  | j :: js => by
    rw [Draft.ofItems, Draft.passItems, passFault_ofJson j, passItems_ofItems js, Option.none_or]

theorem passFields_ofFields : ∀ fs : List (String × Json), Draft.passFields (Draft.ofFields fs) = none
  | [] => by rw [Draft.ofFields, Draft.passFields]
  | (_, j) :: fs => by
    rw [Draft.ofFields, Draft.passFields, passFault_ofJson j, passFields_ofFields fs, Option.none_or]

end

theorem pass_ofJson (j : Json) : (Draft.ofJson j).pass = .ok () := by
  rw [Draft.pass, passFault_ofJson]
  rfl

theorem ofItems_eq_map (js : List Json) : Draft.ofItems js = js.map Draft.ofJson := by
  induction js with
  | nil => rfl
  | cons j js ih => rw [Draft.ofItems, List.map_cons, ih]

theorem mem_ofFields {fs : List (String × Json)} {key : String} {j : Json} (h : (key, j) ∈ fs) :
    (some key, Draft.ofJson j) ∈ Draft.ofFields fs := by
  induction fs with
  | nil => cases h
  | cons f fs ih =>
    rw [Draft.ofFields]
    rcases List.mem_cons.mp h with rfl | h
    · exact List.mem_cons_self
    · exact List.mem_cons_of_mem _ (ih h)

theorem map_fst_ofFields (fs : List (String × Json)) :
    (Draft.ofFields fs).map Prod.fst = (fs.map Prod.fst).map some := by
  induction fs with
  | nil => rfl
  | cons f fs ih => rw [Draft.ofFields, List.map_cons, ih, List.map_cons, List.map_cons]

theorem not_mem_ofFields {fs : List (String × Json)} {key : String} (h : key ∉ fs.map Prod.fst) :
    some key ∉ (Draft.ofFields fs).map Prod.fst := by
  rw [map_fst_ofFields]
  intro hmem
  obtain ⟨key', hkey', heq⟩ := List.mem_map.mp hmem
  exact h (Option.some.inj heq ▸ hkey')

/-- A container is entered where it may nest as deep as it does. -/
theorem Scope.enter_of_lt {scope : Scope} {n : Nat} (h : n + 1 ≤ scope.depth) :
    ∃ inner : Scope, scope.enter = .ok inner ∧ n ≤ inner.depth := by
  obtain ⟨depth, surplus⟩ := scope
  cases depth with
  | zero => cases h
  | succ depth => exact ⟨⟨depth, surplus⟩, rfl, Nat.le_of_succ_le_succ h⟩

namespace Decoder

variable {α ρ : Type}

/-! ### One thing after the other -/

section Bind

variable {ε β : Type} {x : Except ε α} {f : α → Except ε β}

theorem ok_of_bind {b : β} (h : x.bind f = .ok b) : ∃ a, x = .ok a ∧ f a = .ok b := by
  cases x with
  | error e => cases h
  | ok a => exact ⟨a, rfl, h⟩

/-- What cannot be done first cannot be done. -/
theorem bind_toOption_none (h : x.toOption = none) : (x.bind f).toOption = none := by
  cases x with
  | error e => rfl
  | ok a => cases h

/-- What cannot be done last cannot be done. -/
theorem bind_toOption_none_of_ok (h : ∀ a, x = .ok a → (f a).toOption = none) :
    (x.bind f).toOption = none := by
  cases x with
  | error e => rfl
  | ok a => exact h a rfl

end Bind

/-! ### Reading -/

/-- **A decoder reads a value as `a`** wherever containers may nest as deep as the value does. -/
def Reads (decode : Decoder α) (j : Json) (a : α) : Prop :=
  ∀ scope : Scope, j.nesting ≤ scope.depth → decode scope (Draft.ofJson j) = .ok a

theorem string_reads {s : String} {j : Json} (h : IsText s j) : Reads string j s := by
  intro scope _
  rw [h]
  rfl

theorem nat_reads {n : Nat} {j : Json} (h : IsNat n j) : Reads nat j n := by
  obtain ⟨hword, rfl⟩ := h
  intro scope _
  exact if_pos ⟨Int.natCast_nonneg n, Int.ofNat_le.mpr hword⟩

theorem option_reads {s : Option String} {j : Json} (h : IsText? s j) :
    Reads (option string) j s := by
  intro scope _
  rw [h]
  cases s with
  | none => rfl
  | some s => rfl

/-- **A list is read from its spelling** if its items are. -/
theorem list_reads {decode : Decoder α} {as : List α} {items : List Json}
    (h : List.Forall₂ (fun a j => Reads decode j a) as items) :
    Reads (list decode) (.array items) as := by
  intro scope hnesting
  obtain ⟨inner, henter, hinner⟩ := Scope.enter_of_lt hnesting
  have hitems : Decoder.items decode inner (Draft.ofItems items) = .ok as := by
    -- the scope inside is the same for all items, and the induction may forget where it came from
    clear henter hnesting
    induction h with
    | nil => rfl
    | cons hfirst _ ih =>
      obtain ⟨hhere, hrest⟩ := Nat.max_le.mp hinner
      rw [Draft.ofItems, Decoder.items, hfirst inner hhere, ih hrest]
      rfl
  change (scope.enter.bind fun inner => (Decoder.items decode inner (Draft.ofItems items)).bind _) = _
  rw [henter]
  change (Decoder.items decode inner (Draft.ofItems items)).bind _ = _
  rw [hitems]
  rfl

theorem lists_reads {decode : Decoder α} {spells : α → Json → Prop}
    (h : ∀ a j, spells a j → Reads decode j a) {as : List α} {j : Json} (hlists : Lists spells as j) :
    Reads (list decode) j as := by
  obtain ⟨items, rfl, hitems⟩ := hlists
  exact list_reads (hitems.imp h)

theorem items_inv {decode : Decoder α} {scope : Scope} {items : List Json} {as : List α}
    (h : Decoder.items decode scope (Draft.ofItems items) = .ok as) :
    List.Forall₂ (fun a j => decode scope (Draft.ofJson j) = .ok a) as items := by
  induction items generalizing as with
  | nil =>
    cases h
    exact .nil
  | cons j items ih =>
    rw [Draft.ofItems, Decoder.items] at h
    obtain ⟨a, ha, hread⟩ := ok_of_bind h
    obtain ⟨rest, hrest, heq⟩ := ok_of_bind hread
    cases heq
    exact .cons ha (ih hrest)

/-- What an array is read as comes from its items, one by one. -/
theorem list_inv {decode : Decoder α} {scope : Scope} {items : List Json} {as : List α}
    (h : list decode scope (Draft.ofJson (.array items)) = .ok as) :
    ∃ inner, List.Forall₂ (fun a j => decode inner (Draft.ofJson j) = .ok a) as items := by
  obtain ⟨inner, -, hentered⟩ := ok_of_bind h
  obtain ⟨read, hread, heq⟩ := ok_of_bind hentered
  cases heq
  exact ⟨inner, items_inv hread⟩

/-- What is read can be made something of. -/
theorem Reads.map {decode : Decoder α} {j : Json} {a : α} (h : Reads decode j a) (f : α → ρ) :
    Reads (fun scope d => (decode scope d).map f) j (f a) := by
  intro scope hnesting
  change (decode scope (Draft.ofJson j)).map f = _
  rw [h scope hnesting]
  rfl

/-- **A field is filled from an object.** A record that holds what it should under the keys met so far,
which is `only` of these, does so with the field's key when the field is read; and the object has the
field if the record needs it. -/
structure Field.Fills (field : Field ρ) (fields : List (String × Json)) (only : List String → ρ) :
    Prop where
  given : ∀ j, (field.key, j) ∈ fields →
    ∃ put, Reads field.set j put ∧ ∀ keys, put (only keys) = only (field.key :: keys)
  needed : field.required = true → field.key ∈ fields.map Prod.fst

section Fields

variable {fields : List (String × Json)} {only : List String → ρ} {key : String} {left : Prop}
  {spells : Json → Prop} {decode : Decoder α} {put : α → ρ → ρ} {a : α}

theorem Field.fills_optional (htold : Says fields key left spells)
    (hreads : ∀ j, spells j → Reads decode j a)
    (hput : ∀ keys, put a (only keys) = only (key :: keys)) :
    (Field.optional key decode put).Fills fields only where
  given j h := ⟨put a, (hreads j (htold.given j h)).map put, hput⟩
  needed := nofun

theorem Field.fills_needed (htold : Says fields key False spells)
    (hreads : ∀ j, spells j → Reads decode j a)
    (hput : ∀ keys, put a (only keys) = only (key :: keys)) :
    (Field.needed key decode put).Fills fields only where
  given j h := ⟨put a, (hreads j (htold.given j h)).map put, hput⟩
  needed _ := htold.mem

variable {known : List (Field ρ)}

/-- **Filling keeps to what the object says**: the record holds what it should under the keys met so far,
and in the end every known key of the object is met. -/
theorem fill_only {scope : Scope} (hdistinct : (fields.map Prod.fst).Nodup)
    (hfills : ∀ field ∈ known, field.Fills fields only) (hnesting : fieldsNesting fields ≤ scope.depth)
    (seen : List String) (hseen : ∀ key ∈ seen, key ∉ fields.map Prod.fst) :
    ∃ met, fill known scope seen (only seen) (Draft.ofFields fields) = .ok (met, only met) ∧
      seen ⊆ met ∧ ∀ field ∈ known, field.key ∈ fields.map Prod.fst → field.key ∈ met := by
  -- what is left to read is a part of the object at each moment
  suffices h : ∀ rest : List (String × Json), rest ⊆ fields → (rest.map Prod.fst).Nodup →
      ∀ seen : List String, (∀ key ∈ seen, key ∉ rest.map Prod.fst) →
      ∃ met, fill known scope seen (only seen) (Draft.ofFields rest) = .ok (met, only met) ∧
        seen ⊆ met ∧ ∀ field ∈ known, field.key ∈ rest.map Prod.fst → field.key ∈ met from
    h fields (List.Subset.refl _) hdistinct seen hseen
  intro rest
  induction rest with
  | nil =>
    intro _ _ seen _
    exact ⟨seen, rfl, List.Subset.refl _, fun _ _ hmem => absurd hmem List.not_mem_nil⟩
  | cons first rest ih =>
    obtain ⟨key, j⟩ := first
    intro hsub hkeys seen hseen
    obtain ⟨hfirst, hpart⟩ := List.cons_subset.mp hsub
    obtain ⟨hnew, hdistinct⟩ := List.nodup_cons.mp hkeys
    have hunseen : key ∉ seen := fun hmem => hseen key hmem List.mem_cons_self
    have hlater : ∀ k ∈ seen, k ∉ rest.map Prod.fst := fun k hk hmem =>
      hseen k hk (List.mem_cons_of_mem _ hmem)
    rw [Draft.ofFields, fill]
    cases hfind : known.find? (·.key = key) with
    | none =>
      -- passed over, and no known field is met
      obtain ⟨met, hfill, hsub, hmet⟩ := ih hpart hdistinct seen hlater
      refine ⟨met, ?_, hsub, ?_⟩
      · dsimp only
        rw [pass_ofJson]
        exact hfill
      · intro field hfield hmem
        have hother : field.key ≠ key := by
          simpa using List.find?_eq_none.mp hfind field hfield
        exact hmet field hfield ((List.mem_cons.mp hmem).resolve_left hother)
    | some field =>
      -- the record gets the field, and its key is met
      have hkey : field.key = key := by
        simpa using List.find?_some hfind
      subst hkey
      obtain ⟨put, hread, hput⟩ := (hfills field (List.mem_of_find?_eq_some hfind)).given j hfirst
      have hset := hread scope (Nat.le_trans (nesting_le_fieldsNesting hfirst) hnesting)
      have hseen' : ∀ k ∈ field.key :: seen, k ∉ rest.map Prod.fst :=
        List.forall_mem_cons.mpr ⟨hnew, hlater⟩
      obtain ⟨met, hfill, hsub, hmet⟩ := ih hpart hdistinct (field.key :: seen) hseen'
      obtain ⟨hhere, hsub⟩ := List.cons_subset.mp hsub
      refine ⟨met, ?_, hsub, ?_⟩
      · dsimp only
        rw [if_neg hunseen, hset, ← hfill, ← hput]
        rfl
      · intro other hother hmem
        rcases List.mem_cons.mp hmem with heq | hmem
        · exact heq ▸ hhere
        · exact hmet other hother hmem

/-- **An object is read as the record that it spells**: one that holds what it should when every known
key of the object is met. -/
theorem record_reads {blank r : ρ} (only : List String → ρ) (hdistinct : (fields.map Prod.fst).Nodup)
    (hfills : ∀ field ∈ known, field.Fills fields only) (hnone : only [] = blank)
    (hall : ∀ met, (∀ field ∈ known, field.key ∈ fields.map Prod.fst → field.key ∈ met) →
      only met = r) :
    Reads (record blank known) (.object fields) r := by
  intro scope hnesting
  obtain ⟨inner, henter, hinner⟩ := Scope.enter_of_lt hnesting
  obtain ⟨met, hfill, -, hmet⟩ := fill_only hdistinct hfills hinner []
    fun _ hkey => absurd hkey List.not_mem_nil
  -- a field that is required was met
  have hcomplete : (known.all fun field => !field.required || met.contains field.key) = true := by
    refine List.all_eq_true.mpr fun field hfield => ?_
    cases hrequired : field.required with
    | false => rfl
    | true =>
      have hkey := hmet field hfield ((hfills field hfield).needed hrequired)
      rw [Bool.not_true, Bool.false_or]
      exact List.contains_iff_mem.mpr hkey
  rw [Draft.ofJson, record_object, henter, ← hnone]
  change (fill known inner [] (only []) (Draft.ofFields fields)).bind _ = _
  rw [hfill]
  change (if _ then _ else _) = _
  rw [if_pos hcomplete, hall met hmet]

end Fields

/-! ### Refusing -/

/-- **A decoder refuses a value** wherever it stands. -/
def Refuses (decode : Decoder α) (j : Json) : Prop :=
  ∀ scope : Scope, (decode scope (Draft.ofJson j)).toOption = none

theorem Refuses.map {decode : Decoder α} {j : Json} (h : Refuses decode j) (f : α → ρ) :
    Refuses (fun scope d => (decode scope d).map f) j := by
  intro scope
  exact bind_toOption_none (h scope)

/-- **A list with a refused item is refused.** -/
theorem list_refuses {decode : Decoder α} {items : List Json} {j : Json} (hmem : j ∈ items)
    (h : Refuses decode j) : Refuses (list decode) (.array items) := by
  intro scope
  refine bind_toOption_none_of_ok fun inner _ => bind_toOption_none ?_
  induction items with
  | nil => cases hmem
  | cons first rest ih =>
    rw [Draft.ofItems, Decoder.items]
    rcases List.mem_cons.mp hmem with rfl | hmem
    · exact bind_toOption_none (h inner)
    · exact bind_toOption_none_of_ok fun _ _ => bind_toOption_none (ih hmem)

section Records

variable {known : List (Field ρ)} {field : Field ρ} {place : Nat} {j : Json}

/-- A field is found under its key if no other field has that key. -/
theorem find_key (hdistinct : (known.map Field.key).Nodup) (hknown : field ∈ known) :
    known.find? (·.key = field.key) = some field := by
  cases hfind : known.find? (·.key = field.key) with
  | none =>
    have hother := List.find?_eq_none.mp hfind field hknown
    exact absurd (decide_eq_true rfl) hother
  | some other =>
    have hkey : other.key = field.key := by
      simpa using List.find?_some hfind
    exact congrArg some
      (List.inj_on_of_nodup_map hdistinct (List.mem_of_find?_eq_some hfind) hknown hkey)

/-- An object with a refused field does not fill a record. -/
theorem fill_refuses {scope : Scope} {fs : List (Option String × Draft)} {d : Draft}
    (hmem : (some field.key, d) ∈ fs) (hfind : known.find? (·.key = field.key) = some field)
    (h : (field.set scope d).toOption = none) (seen : List String) (r : ρ) :
    (fill known scope seen r fs).toOption = none := by
  -- over the fields up to the bad one; an earlier one may fail first
  induction fs generalizing seen r with
  | nil => cases hmem
  | cons first fs ih =>
    rcases List.mem_cons.mp hmem with rfl | hlater
    · rw [fill, hfind]
      dsimp only
      -- a key that was there before is refused without a look at the value
      by_cases hseen : field.key ∈ seen
      · rw [if_pos hseen]
        rfl
      · rw [if_neg hseen]
        exact bind_toOption_none h
    · obtain ⟨key, d⟩ := first
      cases key with
      | none => rfl
      | some key =>
        rw [fill]
        split
        · exact bind_toOption_none_of_ok fun _ _ => ih hlater seen r
        · split
          · rfl
          · exact bind_toOption_none_of_ok fun _ _ => ih hlater _ _

/-- An array with a refused item does not fill a record. -/
theorem fillInOrder_refuses {scope : Scope} {ds : List Draft} {d : Draft} {stop : Option Fault}
    (hitem : ds[place]? = some d) (hplace : known[place]? = some field)
    (h : (field.set scope d).toOption = none) (r : ρ) :
    (fillInOrder scope r known ds stop).toOption = none := by
  -- over the items and the fields that they stand for, in step
  induction ds generalizing known place r with
  | nil => cases hitem
  | cons first ds ih =>
    cases known with
    | nil => cases hplace
    | cons f known =>
      rw [fillInOrder]
      cases place with
      | zero =>
        cases hitem
        cases hplace
        exact bind_toOption_none h
      | succ place => exact bind_toOption_none_of_ok fun put _ => ih hitem hplace (put r)

/-- **A record with a refused field is refused.** -/
theorem record_refuses {blank : ρ} {whole : Json} {key : String} (hholds : Holds whole key place j)
    (hplace : known[place]? = some field) (hkey : field.key = key)
    (hdistinct : (known.map Field.key).Nodup) (h : Refuses field.set j) :
    Refuses (record blank known) whole := by
  intro scope
  have hfind := find_key hdistinct (List.mem_of_getElem? hplace)
  cases hholds with
  | key hmem =>
    subst hkey
    rw [Draft.ofJson, record_object]
    exact bind_toOption_none_of_ok fun inner _ =>
      bind_toOption_none (fill_refuses (mem_ofFields hmem) hfind (h inner) _ _)
  | place hitem =>
    rw [Draft.ofJson]
    refine bind_toOption_none_of_ok fun inner _ => ?_
    refine fillInOrder_refuses ?_ hplace (h inner) _
    rw [ofItems_eq_map, List.getElem?_map, hitem]
    rfl

end Records

end Decoder

end BytecodeDebugger.Json
