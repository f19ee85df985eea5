import ReportExchange.Identity
import ReportExchange.Schema.Table

namespace ReportExchange

-- The value of one column: its raw code, and the label that people read.
structure Cell where
  code  : String := ""
  label : String := ""
deriving DecidableEq, Repr

namespace Cell

-- A plain value is its own label.
def plain (code : String) : Cell :=
  ⟨code, code⟩

def isEmpty (c : Cell) : Bool :=
  c.code.isEmpty && c.label.isEmpty

def half (c : Cell) : Half → String
  | .code  => c.code
  | .label => c.label

def setHalf (c : Cell) (h : Half) (value : String) : Cell :=
  match h with
  | .code  => { c with code := value }
  | .label => { c with label := value }

theorem half_setHalf (c : Cell) (h k : Half) (value : String) :
    (c.setHalf h value).half k = if k = h then value else c.half k := by
  cases h <;> cases k <;> rfl

end Cell

-- A row of a table. It holds cells of the table's columns only.
@[ext]
structure Row where
  table    : Table
  id       : RowId
  version  : Option String
  cells    : String → Option Cell
  declared : ∀ column, (cells column).isSome → table.declares column

namespace Row

-- A column that the row's table does not have.
structure Undeclared where
  table  : String
  column : String
deriving DecidableEq, Repr

def Undeclared.message (u : Undeclared) : String :=
  "Column '" ++ u.column ++ "' is not defined in schema '" ++ u.table ++ "'"

-- A row without cells that is not stored yet.
def blank (t : Table) : Row where
  table    := t
  id       := .unset
  version  := none
  cells    := fun _ => none
  declared := by simp

def presetCell (t : Table) (column : String) : Option Cell :=
  (t.column? column).bind fun c => c.preset.map Cell.plain

theorem declares_of_column? {t : Table} {column : String} (h : (t.column? column).isSome) :
    t.declares column := by
  simp only [Table.column?, List.find?_isSome] at h
  simp only [Table.declares, List.any_eq_true]
  exact h

-- A row that is not stored yet, with the preset value of every column that has one.
def withPresets (t : Table) : Row where
  table    := t
  id       := .unset
  version  := none
  cells    := presetCell t
  declared := by
    intro column h
    apply declares_of_column?
    simp only [presetCell] at h
    cases hc : t.column? column <;> simp_all

def withId (r : Row) (id : RowId) : Row :=
  { r with id }

def withVersion (r : Row) (version : Option String) : Row :=
  { r with version }

def get (r : Row) (column : String) : Option Cell :=
  r.cells column

def code (r : Row) (column : String) : Option String :=
  (r.cells column).map (·.code)

def label (r : Row) (column : String) : Option String :=
  (r.cells column).map (·.label)

def half (r : Row) (column : String) (h : Half) : Option String :=
  (r.cells column).map (·.half h)

def put (r : Row) (column : String) (cell : Cell) : Except Undeclared Row :=
  if h : r.table.declares column then
    .ok { r with
      cells := fun k => if k = column then some cell else r.cells k
      declared := by
        intro k hk
        by_cases e : k = column
        · exact e ▸ h
        · exact r.declared k (by simpa [e] using hk) }
  else .error ⟨r.table.name, column⟩

theorem put_eq_error_iff {r : Row} {column : String} {cell : Cell} {u : Undeclared} :
    r.put column cell = .error u ↔ ¬ r.table.declares column ∧ u = ⟨r.table.name, column⟩ := by
  simp only [put]
  split
  · next h => simp [h]
  · next h =>
    simp only [h, Except.error.injEq]
    exact ⟨fun e => ⟨by simp, e.symm⟩, fun e => e.2.symm⟩

theorem get_of_put {r s : Row} {column : String} {cell : Cell} (h : r.put column cell = .ok s)
    (k : String) : s.get k = if k = column then some cell else r.get k := by
  simp only [put] at h
  split at h
  · cases h
    rfl
  · cases h

-- A write touches cells only.
theorem frame_of_put {r s : Row} {column : String} {cell : Cell} (h : r.put column cell = .ok s) :
    s.table = r.table ∧ s.id = r.id ∧ s.version = r.version := by
  simp only [put] at h
  split at h
  · cases h
    exact ⟨rfl, rfl, rfl⟩
  · cases h

def putCode (r : Row) (column code : String) : Except Undeclared Row :=
  r.put column (Cell.plain code)

-- Writes one half of a cell and leaves the other as it is.
def setHalf (r : Row) (column : String) (h : Half) (value : String) : Except Undeclared Row :=
  r.put column (((r.cells column).getD {}).setHalf h value)

-- A cell with both halves empty is no cell.
def withoutHalf (cell : Cell) (h : Half) : Option Cell :=
  let cleared := cell.setHalf h ""
  if cleared.isEmpty then none else some cleared

-- Empties one half of a cell.
def clearHalf (r : Row) (column : String) (h : Half) : Row where
  table    := r.table
  id       := r.id
  version  := r.version
  cells    := fun k => if k = column then (r.cells k).bind (withoutHalf · h) else r.cells k
  declared := by
    intro k hk
    apply r.declared
    by_cases e : k = column
    · cases hc : r.cells k <;> simp_all
    · simpa [e] using hk

theorem get_clearHalf (r : Row) (column k : String) (h : Half) :
    (r.clearHalf column h).get k =
      if k = column then (r.get k).bind (withoutHalf · h) else r.get k := rfl

-- The identity of the row's parent in a table, if its foreign key holds one.
def parentId (r : Row) (parent : String) : Option RowId :=
  ((r.code (foreignKey parent)).bind RowId.read?).filter (·.isSet)

def setParentId (r : Row) (parent : String) (id : RowId) : Except Undeclared Row :=
  r.putCode (foreignKey parent) id.text

-- The cells that the row holds, in the order of its table's columns.
def populated (r : Row) : List (String × Cell) :=
  r.table.columns.filterMap fun c => (r.cells c.id).map fun cell => (c.id, cell)

end Row

end ReportExchange
