import BytecodeDebugger.Json.Decode

/-!
# Plain JSON

A plain value holds no float, and only integers that 64 bits hold; an ordered value lists the fields
of its objects in key order, each key once. An ordered value is its own canonical form. Reading the
draft of a value gives the value back as long as it does not nest too deep.

Main statements:

* `Json.canonical_of_isOrdered` — an ordered value is in canonical form;
* `Json.nesting_le_itemsNesting`, `Json.nesting_le_fieldsNesting` — what stands in a container nests no
  deeper than its contents;
* `Json.Decoder.any_ofJson` — the draft of a value is read as that value within its nesting.
-/

namespace BytecodeDebugger

namespace SortedMap

variable {κ : Type} [Key κ] {α : Type}

/-- What is placed behind every key stands at the end. -/
theorem place_of_forall_lt {k : κ} {l : List (κ × α)} (h : ∀ p ∈ l, p.1 < k) (v : α) :
    place k v l = l ++ [(k, v)] := by
  -- every key is smaller, so that the new entry is passed down to the end
  induction l with
  | nil => rfl
  | cons p l ih =>
    have hp : p.1 < k := h p List.mem_cons_self
    have hnot : ¬ k < p.1 := fun hlt => Key.irrefl _ (Key.trans hp hlt)
    unfold place
    rw [if_neg hnot, if_pos hp, ih fun q hq => h q (List.mem_cons_of_mem _ hq)]
    rfl

/-- Pairs inserted in key order stand in the order in which they were inserted. -/
theorem entries_foldl_insert (m : SortedMap κ α) (l : List (κ × α))
    (h : (m.entries ++ l).Pairwise fun a b => a.1 < b.1) :
    (l.foldl (fun m p => m.insert p.1 p.2) m).entries = m.entries ++ l := by
  induction l generalizing m with
  | nil => exact (List.append_nil _).symm
  | cons p l ih =>
    -- in order, each key goes behind all that are there
    have hlast : (m.insert p.1 p.2).entries = m.entries ++ [p] :=
      place_of_forall_lt (fun q hq => (List.pairwise_append.mp h).2.2 q hq p List.mem_cons_self) p.2
    have hmoved : m.entries ++ p :: l = (m.insert p.1 p.2).entries ++ l := by
      rw [hlast, List.append_assoc]
      rfl
    rw [hmoved] at h ⊢
    exact ih _ h

/-- **A list in key order** lists the map that it makes. -/
theorem toList_ofList {l : List (κ × α)} (h : l.Pairwise fun a b => a.1 < b.1) :
    (ofList l).toList = l :=
  entries_foldl_insert empty l h

/-- A map is made from its list. -/
theorem ofList_toList (m : SortedMap κ α) : ofList m.toList = m := by
  obtain ⟨entries, sorted⟩ := m
  have hentries : (ofList entries).entries = entries := toList_ofList sorted
  change ofList entries = _
  generalize ofList entries = m at hentries
  obtain ⟨_, _⟩ := m
  cases hentries
  rfl

end SortedMap

namespace Json

/-- The smallest integer of 64 bits and a sign. -/
def minWord : Int := -9223372036854775808

mutual

/-- **A value without floats** whose integers 64 bits hold. -/
def isPlain : Json → Bool
  | .int n => decide (minWord ≤ n ∧ n ≤ Text.maxWord)
  | .float _ => false
  | .array items => plainItems items
  | .object fields => plainFields fields
  | _ => true

/-- All items are plain. -/
def plainItems : List Json → Bool
  | [] => true
  | j :: js => j.isPlain && plainItems js

/-- The values of all fields are plain. -/
def plainFields : List (String × Json) → Bool
  | [] => true
  | (_, j) :: fs => j.isPlain && plainFields fs

end

mutual

/-- **A value whose objects list their fields in key order**, each key once. -/
def isOrdered : Json → Bool
  | .array items => orderedItems items
  | .object fields => decide (fields.Pairwise fun a b => a.1 < b.1) && orderedFields fields
  | _ => true

/-- All items are ordered. -/
def orderedItems : List Json → Bool
  | [] => true
  | j :: js => j.isOrdered && orderedItems js

/-- The values of all fields are ordered. -/
def orderedFields : List (String × Json) → Bool
  | [] => true
  | (_, j) :: fs => j.isOrdered && orderedFields fs

end

/-! ### Canonical forms -/

mutual

/-- **An ordered value is in canonical form.** -/
theorem canonical_of_isOrdered : ∀ {j : Json}, j.isOrdered → j.canonical = j
  | .null, _ => rfl
  | .bool _, _ => rfl
  | .int _, _ => rfl
  | .float _, _ => rfl
  | .string _, _ => rfl
  | .array items, h => by
    unfold canonical
    rw [canonicalItems_of_ordered h]
  | .object fields, h => by
    obtain ⟨hsorted, hfields⟩ := Bool.and_eq_true_iff.mp h
    unfold canonical
    rw [canonicalFields_of_ordered hfields, SortedMap.toList_ofList (of_decide_eq_true hsorted)]

theorem canonicalItems_of_ordered : ∀ {js : List Json}, orderedItems js → canonicalItems js = js
  | [], _ => rfl
  | j :: js, h => by
    obtain ⟨hfirst, hrest⟩ := Bool.and_eq_true_iff.mp h
    unfold canonicalItems
    rw [canonical_of_isOrdered hfirst, canonicalItems_of_ordered hrest]

theorem canonicalFields_of_ordered : ∀ {fs : List (String × Json)}, orderedFields fs →
    canonicalFields fs = fs
  | [], _ => rfl
  | (k, j) :: fs, h => by
    obtain ⟨hfirst, hrest⟩ := Bool.and_eq_true_iff.mp h
    unfold canonicalFields
    rw [canonical_of_isOrdered hfirst, canonicalFields_of_ordered hrest]

end

/-! ### Nesting -/

theorem nesting_le_itemsNesting {j : Json} {items : List Json} (h : j ∈ items) :
    j.nesting ≤ itemsNesting items := by
  induction items with
  | nil => cases h
  | cons first rest ih =>
    rcases List.mem_cons.mp h with rfl | h
    · exact Nat.le_max_left _ _
    · exact Nat.le_trans (ih h) (Nat.le_max_right _ _)

theorem nesting_le_fieldsNesting {key : String} {j : Json} {fields : List (String × Json)}
    (h : (key, j) ∈ fields) : j.nesting ≤ fieldsNesting fields := by
  induction fields with
  | nil => cases h
  | cons first rest ih =>
    rcases List.mem_cons.mp h with rfl | h
    · exact Nat.le_max_left _ _
    · exact Nat.le_trans (ih h) (Nat.le_max_right _ _)

/-! ### Drafts of values -/

namespace Decoder

mutual

/-- **The draft of a value is read as that value**, if it may nest as deep as it does. -/
theorem any_ofJson : ∀ {depth : Nat} {j : Json}, j.nesting ≤ depth →
    any depth (Draft.ofJson j) = .ok j
  | _, .null, _ => by rw [Draft.ofJson, any]
  | _, .bool _, _ => by rw [Draft.ofJson, any]
  | _, .int _, _ => by rw [Draft.ofJson, any]
  | _, .float _, _ => by rw [Draft.ofJson, any]
  | _, .string _, _ => by rw [Draft.ofJson, any]
  | depth + 1, .array items, h => by
    rw [Draft.ofJson, any, anyItems_ofItems (Nat.le_of_succ_le_succ h)]
    rfl
  | depth + 1, .object fields, h => by
    rw [Draft.ofJson, any, anyFields_ofFields (Nat.le_of_succ_le_succ h)]
    rfl

theorem anyItems_ofItems : ∀ {depth : Nat} {js : List Json}, itemsNesting js ≤ depth →
    anyItems depth (Draft.ofItems js) = .ok js
  | _, [], _ => by rw [Draft.ofItems, anyItems]
  | _, j :: js, h => by
    obtain ⟨hfirst, hrest⟩ := Nat.max_le.mp h
    rw [Draft.ofItems, anyItems, any_ofJson hfirst, anyItems_ofItems hrest]
    rfl

theorem anyFields_ofFields : ∀ {depth : Nat} {fs : List (String × Json)}, fieldsNesting fs ≤ depth →
    anyFields depth (Draft.ofFields fs) = .ok fs
  | _, [], _ => by rw [Draft.ofFields, anyFields]
  | _, (k, j) :: fs, h => by
    obtain ⟨hfirst, hrest⟩ := Nat.max_le.mp h
    rw [Draft.ofFields, anyFields, any_ofJson hfirst, anyFields_ofFields hrest]
    rfl

end

end Decoder

end Json

end BytecodeDebugger
