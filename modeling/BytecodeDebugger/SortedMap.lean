/-!
# Maps in key order

A `SortedMap κ α` is a list of pairs whose keys strictly increase. Two maps with the same entries
are therefore equal, and listing a map shows its keys in order without further work: that order is
what the debugger's clients see, for texts the order of their code points.

Main statements: `get?_insert`, `get?_erase` say what each operation does to the view `get?`, and
`ext_get?` says that the view determines the map.
-/

namespace BytecodeDebugger

universe u v

/-- A key type: `<` is decidable, transitive, irreflexive and leaves no two keys unordered. -/
class Key (κ : Type u) extends LT κ where
  decidableLT : ∀ a b : κ, Decidable (a < b)
  irrefl : ∀ a : κ, ¬ a < a
  trans : ∀ {a b c : κ}, a < b → b < c → a < c
  total : ∀ {a b : κ}, ¬ a < b → ¬ b < a → a = b

instance Key.instDecidableLt (κ : Type u) [Key κ] (a b : κ) : Decidable (a < b) :=
  Key.decidableLT a b

instance : Key String where
  decidableLT _ _ := inferInstance
  irrefl := String.lt_irrefl
  trans := String.lt_trans
  total h₁ h₂ := String.le_antisymm (String.not_lt.mp h₂) (String.not_lt.mp h₁)

instance : Key Nat where
  decidableLT _ _ := inferInstance
  irrefl := Nat.lt_irrefl
  trans := Nat.lt_trans
  total h₁ h₂ := Nat.le_antisymm (Nat.le_of_not_lt h₂) (Nat.le_of_not_lt h₁)

/-- **Map in key order.** The keys of `entries` strictly increase. -/
structure SortedMap (κ : Type u) [Key κ] (α : Type v) where
  entries : List (κ × α)
  sorted : entries.Pairwise (fun a b => a.1 < b.1)

namespace SortedMap

variable {κ : Type u} [Key κ] {α : Type v}

/-- The map without entries. -/
def empty : SortedMap κ α := ⟨[], .nil⟩

instance : Inhabited (SortedMap κ α) := ⟨empty⟩
instance : EmptyCollection (SortedMap κ α) := ⟨empty⟩

/-- The value listed first under `k`. -/
def lookup (k : κ) : List (κ × α) → Option α
  | [] => none
  | (k', v) :: rest => if k < k' then lookup k rest else if k' < k then lookup k rest else some v

/-- Puts `v` under `k` at its place in a sorted list, over what stood there. -/
def place (k : κ) (v : α) : List (κ × α) → List (κ × α)
  | [] => [(k, v)]
  | (k', v') :: rest =>
    if k < k' then (k, v) :: (k', v') :: rest
    else if k' < k then (k', v') :: place k v rest
    else (k', v) :: rest

/-- Drops what stands under `k`. -/
def discard (k : κ) : List (κ × α) → List (κ × α)
  | [] => []
  | (k', v') :: rest =>
    if k < k' then (k', v') :: discard k rest
    else if k' < k then (k', v') :: discard k rest
    else discard k rest

theorem mem_place {k : κ} {v : α} {l : List (κ × α)} {p : κ × α} (h : p ∈ place k v l) :
    p.1 = k ∨ p ∈ l ∨ ∃ q ∈ l, q.1 = p.1 := by
  -- over the entries; the new one goes in front of the first larger key, or in the place of its own
  induction l with
  | nil => simp [place] at h; simp [h]
  | cons q rest ih =>
    obtain ⟨k', v'⟩ := q
    unfold place at h
    split at h
    · rcases List.mem_cons.mp h with rfl | h
      · exact .inl rfl
      · exact .inr (.inl h)
    · split at h
      · rcases List.mem_cons.mp h with rfl | h
        · exact .inr (.inl List.mem_cons_self)
        · rcases ih h with h | h | ⟨q, hq, he⟩
          · exact .inl h
          · exact .inr (.inl (List.mem_cons_of_mem _ h))
          · exact .inr (.inr ⟨q, List.mem_cons_of_mem _ hq, he⟩)
      · rcases List.mem_cons.mp h with rfl | h
        · exact .inr (.inr ⟨_, List.mem_cons_self, rfl⟩)
        · exact .inr (.inl (List.mem_cons_of_mem _ h))

theorem place_sorted {k : κ} {v : α} {l : List (κ × α)}
    (h : l.Pairwise (fun a b => a.1 < b.1)) : (place k v l).Pairwise (fun a b => a.1 < b.1) := by
  induction l with
  | nil => exact List.pairwise_singleton _ _
  | cons q rest ih =>
    obtain ⟨k', v'⟩ := q
    obtain ⟨hq, hr⟩ := List.pairwise_cons.mp h
    unfold place
    split
    · next hlt =>
      refine List.pairwise_cons.mpr ⟨fun p hp => ?_, h⟩
      rcases List.mem_cons.mp hp with rfl | hp
      · exact hlt
      · exact Key.trans hlt (hq p hp)
    · split
      · next hlt =>
        refine List.pairwise_cons.mpr ⟨fun p hp => ?_, ih hr⟩
        rcases mem_place hp with h | h | ⟨r, hr, he⟩
        -- a pair of the new list is the new one, an old one, or has the key of an old one
        · exact h ▸ hlt
        · exact hq p h
        · exact he ▸ hq r hr
      · exact List.pairwise_cons.mpr ⟨fun p hp => hq p hp, hr⟩

theorem mem_of_mem_discard {k : κ} {l : List (κ × α)} {p : κ × α} (h : p ∈ discard k l) :
    p ∈ l := by
  induction l with
  | nil => exact h
  | cons q rest ih =>
    unfold discard at h
    split at h
    · rcases List.mem_cons.mp h with rfl | h
      · exact List.mem_cons_self
      · exact List.mem_cons_of_mem _ (ih h)
    · split at h
      · rcases List.mem_cons.mp h with rfl | h
        · exact List.mem_cons_self
        · exact List.mem_cons_of_mem _ (ih h)
      · exact List.mem_cons_of_mem _ (ih h)

theorem discard_sorted {k : κ} {l : List (κ × α)}
    (h : l.Pairwise (fun a b => a.1 < b.1)) : (discard k l).Pairwise (fun a b => a.1 < b.1) := by
  induction l with
  | nil => exact h
  | cons q rest ih =>
    obtain ⟨hq, hr⟩ := List.pairwise_cons.mp h
    unfold discard
    split
    · exact List.pairwise_cons.mpr ⟨fun p hp => hq p (mem_of_mem_discard hp), ih hr⟩
    · split
      · exact List.pairwise_cons.mpr ⟨fun p hp => hq p (mem_of_mem_discard hp), ih hr⟩
      · exact ih hr

/-- The value under `k`. -/
def get? (m : SortedMap κ α) (k : κ) : Option α := lookup k m.entries

/-- Whether something stands under `k`. -/
def contains (m : SortedMap κ α) (k : κ) : Bool := (m.get? k).isSome

/-- Puts `v` under `k`, over what stood there. -/
def insert (m : SortedMap κ α) (k : κ) (v : α) : SortedMap κ α :=
  ⟨place k v m.entries, place_sorted m.sorted⟩

/-- Leaves nothing under `k`. -/
def erase (m : SortedMap κ α) (k : κ) : SortedMap κ α :=
  ⟨discard k m.entries, discard_sorted m.sorted⟩

/-- The map of a list of pairs; of several pairs with one key the last stays. -/
def ofList (l : List (κ × α)) : SortedMap κ α := l.foldl (fun m p => m.insert p.1 p.2) empty

/-- The entries in key order. -/
def toList (m : SortedMap κ α) : List (κ × α) := m.entries

/-- The keys in order. -/
def keys (m : SortedMap κ α) : List κ := m.entries.map Prod.fst

/-- How many entries there are. -/
def size (m : SortedMap κ α) : Nat := m.entries.length

/-- The same keys with other values. -/
def map {β : Type v} (f : α → β) (m : SortedMap κ α) : SortedMap κ β :=
  ⟨m.entries.map fun p => (p.1, f p.2), by
    have := m.sorted
    rw [List.pairwise_map]
    exact this⟩

theorem lookup_place (k k' : κ) (v : α) (l : List (κ × α)) :
    lookup k' (place k v l) = if k' < k ∨ k < k' then lookup k' l else some v := by
  have irr := Key.irrefl (κ := κ)
  -- over the entries, by how the two keys compare with the first one and with each other
  induction l with
  | nil =>
    by_cases h₁ : k' < k
    · simp [place, lookup, h₁]
    · by_cases h₂ : k < k' <;> simp [place, lookup, h₁, h₂]
  | cons q rest ih =>
    obtain ⟨k₀, v₀⟩ := q
    by_cases h : k < k₀
    · by_cases h₁ : k' < k
      · simp [place, lookup, h, h₁]
      · by_cases h₂ : k < k' <;> simp [place, lookup, h, h₁, h₂]
    · by_cases h' : k₀ < k
      · by_cases h₁ : k' < k₀
        · simp [place, lookup, h, h', h₁, ih]
        · by_cases h₂ : k₀ < k'
          · simp [place, lookup, h, h', h₁, h₂, ih]
          · obtain rfl := Key.total h₁ h₂
            simp [place, lookup, h, h', irr]
      · obtain rfl := Key.total h h'
        by_cases h₁ : k' < k
        · simp [place, lookup, irr, h₁]
        · by_cases h₂ : k < k' <;> simp [place, lookup, irr, h₁, h₂]

theorem lookup_discard (k k' : κ) (l : List (κ × α)) :
    lookup k' (discard k l) = if k' < k ∨ k < k' then lookup k' l else none := by
  have irr := Key.irrefl (κ := κ)
  induction l with
  | nil => simp [discard, lookup]
  | cons q rest ih =>
    obtain ⟨k₀, v₀⟩ := q
    by_cases h : k < k₀ ∨ k₀ < k
    · -- another key stays, whatever becomes of the rest
      have hd : discard k ((k₀, v₀) :: rest) = (k₀, v₀) :: discard k rest := by
        rcases h with h | h
        · simp [discard, h]
        · by_cases h' : k < k₀ <;> simp [discard, h, h']
      by_cases h₁ : k' < k₀
      · simp [hd, lookup, h₁, ih]
      · by_cases h₂ : k₀ < k'
        · simp [hd, lookup, h₁, h₂, ih]
        · obtain rfl := Key.total h₁ h₂
          simp [hd, lookup, irr, h.symm]
    · obtain ⟨h₁, h₂⟩ := not_or.mp h
      obtain rfl := Key.total h₁ h₂
      by_cases h₁ : k' < k
      · simp [discard, lookup, irr, h₁, ih]
      · by_cases h₂ : k < k' <;> simp [discard, lookup, irr, h₁, h₂, ih]

@[simp] theorem get?_empty (k : κ) : (empty : SortedMap κ α).get? k = none := rfl

/-- A text or number differs from another exactly when one of them is smaller. -/
theorem ne_iff_lt_or_lt {a b : κ} : a ≠ b ↔ a < b ∨ b < a := by
  constructor
  · intro h
    by_cases h₁ : a < b
    · exact .inl h₁
    · by_cases h₂ : b < a
      · exact .inr h₂
      · exact absurd (Key.total h₁ h₂) h
  · rintro (h | h) rfl <;> exact Key.irrefl _ h

/-- The last pair of a list is inserted last. -/
theorem ofList_snoc (l : List (κ × α)) (p : κ × α) :
    ofList (l ++ [p]) = (ofList l).insert p.1 p.2 := by
  unfold ofList
  rw [List.foldl_append]
  rfl

theorem get?_insert [DecidableEq κ] (m : SortedMap κ α) (k k' : κ) (v : α) :
    (m.insert k v).get? k' = if k' = k then some v else m.get? k' := by
  simp only [get?, insert, lookup_place]
  by_cases h : k' = k
  · subst h; simp [Key.irrefl]
  · simp [h, ne_iff_lt_or_lt.mp h]

theorem get?_erase [DecidableEq κ] (m : SortedMap κ α) (k k' : κ) :
    (m.erase k).get? k' = if k' = k then none else m.get? k' := by
  simp only [get?, erase, lookup_discard]
  by_cases h : k' = k
  · subst h; simp [Key.irrefl]
  · simp [h, ne_iff_lt_or_lt.mp h]

@[simp] theorem get?_insert_self (m : SortedMap κ α) (k : κ) (v : α) :
    (m.insert k v).get? k = some v := by
  simp [get?, insert, lookup_place, Key.irrefl]

theorem lookup_of_lt {k : κ} {l : List (κ × α)} (h : ∀ p ∈ l, k < p.1) : lookup k l = none := by
  induction l with
  | nil => rfl
  | cons q rest ih =>
    have hk := h q List.mem_cons_self
    simp [lookup, hk, ih fun p hp => h p (List.mem_cons_of_mem _ hp)]

theorem lookup_cons_self (k : κ) (v : α) (rest : List (κ × α)) :
    lookup k ((k, v) :: rest) = some v := by
  simp [lookup, Key.irrefl]

theorem lookup_cons_of_ne {k k' : κ} (h : k ≠ k') (v : α) (rest : List (κ × α)) :
    lookup k ((k', v) :: rest) = lookup k rest := by
  rcases ne_iff_lt_or_lt.mp h with h | h
  · simp [lookup, h]
  · by_cases h' : k < k' <;> simp [lookup, h, h']

/-- The keys are those under which something stands. -/
theorem mem_keys {m : SortedMap κ α} {k : κ} : k ∈ m.keys ↔ ∃ v, m.get? k = some v := by
  -- for any list of entries, since the induction leaves the map behind
  have hlist : ∀ l : List (κ × α), k ∈ l.map Prod.fst ↔ ∃ v, lookup k l = some v := by
    intro l
    induction l with
    | nil => simp [lookup]
    | cons p l ih =>
      obtain ⟨k', v⟩ := p
      rw [List.map_cons, List.mem_cons]
      by_cases hk : k = k'
      · subst hk
        rw [lookup_cons_self]
        exact ⟨fun _ => ⟨v, rfl⟩, fun _ => .inl rfl⟩
      · rw [lookup_cons_of_ne hk, ih]
        exact ⟨fun h => h.resolve_left hk, .inr⟩
  exact hlist m.entries

/-- The view `get?` determines a map. -/
theorem ext_get? {m₁ m₂ : SortedMap κ α} (h : ∀ k, m₁.get? k = m₂.get? k) : m₁ = m₂ := by
  obtain ⟨l₁, s₁⟩ := m₁
  obtain ⟨l₂, s₂⟩ := m₂
  congr
  simp only [get?] at h
  induction l₁ generalizing l₂ with
  | nil =>
    cases l₂ with
    | nil => rfl
    | cons q rest => have := h q.1; rw [lookup_cons_self] at this; simp [lookup] at this
  | cons p l₁ ih =>
    cases l₂ with
    | nil => have := h p.1; rw [lookup_cons_self] at this; simp [lookup] at this
    | cons q l₂ =>
      obtain ⟨k₁, v₁⟩ := p
      obtain ⟨k₂, v₂⟩ := q
      obtain ⟨hp, hl₁⟩ := List.pairwise_cons.mp s₁
      obtain ⟨hq, hl₂⟩ := List.pairwise_cons.mp s₂
      -- the smaller of the two first keys would be missing on the other side
      have key : k₁ = k₂ := by
        refine Key.total (fun hlt => ?_) (fun hlt => ?_)
        · have := h k₁
          rw [lookup_cons_self, lookup_of_lt] at this
          · cases this
          · intro r hr
            rcases List.mem_cons.mp hr with rfl | hr
            · exact hlt
            · exact Key.trans hlt (hq r hr)
        · have := h k₂
          rw [lookup_cons_self, lookup_of_lt] at this
          · cases this
          · intro r hr
            rcases List.mem_cons.mp hr with rfl | hr
            · exact hlt
            · exact Key.trans hlt (hp r hr)
      subst key
      have value := h k₁
      rw [lookup_cons_self, lookup_cons_self] at value
      cases value
      congr 1
      -- below the first entries the views agree, since their key stands in neither rest
      refine ih hl₁ l₂ hl₂ fun k => ?_
      have := h k
      by_cases hk : k = k₁
      · subst hk
        rw [lookup_of_lt hp, lookup_of_lt hq]
      · rwa [lookup_cons_of_ne hk, lookup_cons_of_ne hk] at this

end SortedMap

end BytecodeDebugger
