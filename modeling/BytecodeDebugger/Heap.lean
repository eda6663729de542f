import BytecodeDebugger.SortedMap
import BytecodeDebugger.Value

/-!
# Tables

A table maps texts to values other than nil: storing nil under a key leaves nothing there. The
tables of a program live in a heap, which names them in the order in which they were made.
-/

namespace BytecodeDebugger

/-- The fields of a table. -/
abbrev Table := SortedMap String Value

namespace Table

/-- The value under a key, nil when there is none. -/
def get (t : Table) (key : String) : Value := (t.get? key).getD .nil

/-- Stores a value; nil removes the field. -/
def set (t : Table) (key : String) (v : Value) : Table :=
  if v.isNil then t.erase key else t.insert key v

theorem get_set (t : Table) (key key' : String) (v : Value) :
    (t.set key v).get key' = if key' = key then v else t.get key' := by
  unfold set get
  cases v <;> simp only [Value.isNil, if_true, if_false, Bool.false_eq_true]
    <;> (try rw [SortedMap.get?_erase]) <;> (try rw [SortedMap.get?_insert])
    <;> split <;> rfl

end Table

/-- **The tables of a program.** -/
structure Heap where
  tables : Array Table
  deriving Inhabited

namespace Heap

/-- The heap without tables. -/
def empty : Heap := ⟨#[]⟩

/-- The fields of a table; a table that was never made has none. -/
def table (h : Heap) (id : TableId) : Table := h.tables.getD id .empty

/-- The value of a field. -/
def get (h : Heap) (id : TableId) (key : String) : Value := (h.table id).get key

/-- Changes a table. -/
def update (h : Heap) (id : TableId) (f : Table → Table) : Heap :=
  ⟨h.tables.modify id f⟩

/-- Stores into a field. -/
def set (h : Heap) (id : TableId) (key : String) (v : Value) : Heap := h.update id (·.set key v)

/-- Empties a table. -/
def clear (h : Heap) (id : TableId) : Heap := h.update id fun _ => .empty

/-- The fields of a table in key order. -/
def fields (h : Heap) (id : TableId) : List (String × Value) := (h.table id).toList

/-- A new table with the fields given. -/
def alloc (h : Heap) (t : Table) : TableId × Heap := (h.tables.size, ⟨h.tables.push t⟩)

end Heap

end BytecodeDebugger
