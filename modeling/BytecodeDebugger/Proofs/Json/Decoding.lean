import BytecodeDebugger.Proofs.Json.Plain

/-!
# What decoders make of values

The data that an array, an object or a record was written from is found in it again, if it is found in
each of its parts; and a record is not read where one of its fields is missing.

Main statements:

* `Json.Decoder.list_ofJson`, `Json.Decoder.map_ofJson` — lists and maps are read back if their items are;
* `Json.Decoder.record_missing` — a record needs its fields.
-/

namespace BytecodeDebugger.Json

/-! ### Plain containers -/

variable {α : Type}

theorem plainItems_map {f : α → Json} (h : ∀ a, (f a).isPlain = true) (as : List α) :
    plainItems (as.map f) = true := by
  induction as with
  | nil => rfl
  | cons a as ih => exact Bool.and_eq_true_iff.mpr ⟨h a, ih⟩

theorem plainFields_map {f : α → Json} (h : ∀ a, (f a).isPlain = true) (entries : List (String × α)) :
    plainFields (entries.map fun p => (p.1, f p.2)) = true := by
  induction entries with
  | nil => rfl
  | cons p entries ih => exact Bool.and_eq_true_iff.mpr ⟨h p.2, ih⟩

namespace Decoder

/-! ### Lists and maps -/

section Containers

variable {decode : Decoder α} {f : α → Json} {depth : Nat} {surplus : JsonError}

/-- **A list is read back** if each of its items is. -/
theorem list_ofJson (h : ∀ a, decode ⟨depth, surplus⟩ (Draft.ofJson (f a)) = .ok a) (as : List α) :
    list decode ⟨depth + 1, surplus⟩ (Draft.ofJson (.array (as.map f))) = .ok as := by
  have hitems : items decode ⟨depth, surplus⟩ (Draft.ofItems (as.map f)) = .ok as := by
    induction as with
    | nil => rfl
    | cons a as ih =>
      rw [List.map_cons, Draft.ofItems, items, h a, ih]
      rfl
  change (items decode ⟨depth, surplus⟩ (Draft.ofItems (as.map f))).bind _ = _
  rw [hitems]
  rfl

/-- **A map is read back** if each of its values is. -/
theorem map_ofJson (h : ∀ a, decode ⟨depth, surplus⟩ (Draft.ofJson (f a)) = .ok a)
    (m : SortedMap String α) :
    map decode ⟨depth + 1, surplus⟩ (Draft.ofJson (ofMap f m)) = .ok m := by
  have hfields : ∀ entries : List (String × α), fields decode ⟨depth, surplus⟩
      (Draft.ofFields (entries.map fun p => (p.1, f p.2))) = .ok entries := by
    intro entries
    induction entries with
    | nil => rfl
    | cons p entries ih =>
      rw [List.map_cons, Draft.ofFields, fields, h p.2, ih]
      rfl
  change (fields decode ⟨depth, surplus⟩
    (Draft.ofFields (m.toList.map fun p => (p.1, f p.2)))).bind _ = _
  rw [hfields]
  exact congrArg Except.ok m.ofList_toList

end Containers

/-! ### Records -/

section Records

variable {ρ : Type} {known : List (Field ρ)} {scope : Scope} {seen seen' : List String} {r r' : ρ}
  {fs : List (Option String × Draft)}

/-- What was met stood there. -/
theorem mem_of_fill {k : String} (h : fill known scope seen r fs = .ok (seen', r'))
    (hk : k ∈ seen') : k ∈ seen ∨ some k ∈ fs.map Prod.fst := by
  induction fs generalizing seen r with
  | nil =>
    cases h
    exact .inl hk
  | cons f fs ih =>
    obtain ⟨key?, d⟩ := f
    cases key? with
    | none => cases h
    | some key =>
      unfold fill at h
      split at h
      · -- a key that no field has is passed by
        cases hpass : d.pass with
        | error e =>
          rw [hpass] at h
          cases h
        | ok u =>
          rw [hpass] at h
          exact (ih h).imp_right (List.mem_cons_of_mem _)
      · next field _ =>
        split at h
        · cases h
        · cases hset : field.set scope d with
          | error e =>
            rw [hset] at h
            cases h
          | ok put =>
            rw [hset] at h
            rcases ih h with hseen | hrest
            · rcases List.mem_cons.mp hseen with rfl | hseen
              · exact .inr List.mem_cons_self
              · exact .inl hseen
            · exact .inr (List.mem_cons_of_mem _ hrest)

/-- A record is filled from its fields, and none of those that it needs may be missing. -/
theorem record_object (blank : ρ) (known : List (Field ρ)) (scope : Scope)
    (fs : List (Option String × Draft)) :
    record blank known scope (.object fs none) = scope.enter.bind fun scope =>
      (fill known scope [] blank fs).bind fun p =>
        if known.all fun field => !field.required || p.1.contains field.key then .ok p.2
        else .error (.shape none) :=
  rfl

/-- **A record is not read where a field is missing** that it needs. -/
theorem record_missing {blank : ρ} {field : Field ρ} (hknown : field ∈ known)
    (hrequired : field.required = true) (hmissing : some field.key ∉ fs.map Prod.fst) :
    (record blank known scope (.object fs none)).toOption = none := by
  rw [record_object]
  cases scope.enter with
  | error e => rfl
  | ok scope =>
    change ((fill known scope [] blank fs).bind _).toOption = none
    cases hfill : fill known scope [] blank fs with
    | error e => rfl
    | ok p =>
      have hunseen : field.key ∉ p.1 := fun hseen =>
        (mem_of_fill hfill hseen).elim (fun hnone => by cases hnone) hmissing
      have hall : ¬ (known.all fun field => !field.required || p.1.contains field.key) = true := by
        intro hall
        have hfield := List.all_eq_true.mp hall field hknown
        rw [hrequired, Bool.not_true, Bool.false_or, List.contains_iff_mem] at hfield
        exact hunseen hfield
      change (if _ then _ else _ : Except JsonError ρ).toOption = none
      rw [if_neg hall]
      rfl

end Records

end Decoder

end BytecodeDebugger.Json
