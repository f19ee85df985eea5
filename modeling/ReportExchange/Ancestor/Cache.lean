import ReportExchange.Catalog.Ancestry
import ReportExchange.Store.Basic

namespace ReportExchange

-- What formulas and exports read from.
structure Archive where
  catalog : Catalog
  store   : Store

inductive ParentError
  | notFound (table : String) (id : RowId)
  | catalog (cause : CatalogError)
deriving DecidableEq, Repr

namespace ParentError

def message : ParentError → String
  | notFound table id => "Parent row " ++ table ++ "#" ++ id.text ++ " not found"
  | catalog cause     => cause.message

end ParentError

namespace Archive

-- The row of a table, read from the store itself.
def parent (a : Archive) (table : String) (id : RowId) : Except ParentError Row :=
  match a.catalog.table table with
  | .error cause => .error (.catalog cause)
  | .ok t =>
    match a.store.find? t.name id with
    | some row => .ok row
    | none     => .error (.notFound table id)

end Archive

namespace ParentCache

structure Slot where
  id  : RowId
  row : Row

end ParentCache

-- One slot for every table: rows of one parent come one after the other, so the last parent of a
-- table is the one that is asked for again.
structure ParentCache where
  slots   : List (String × ParentCache.Slot) := []
  -- How often the store was asked, and how often the cache knew the answer.
  fetches : Nat := 0
  hits    : Nat := 0

namespace ParentCache

def slot? (c : ParentCache) (table : String) : Option Slot :=
  (c.slots.find? (·.1 = table)).map (·.2)

def evict (c : ParentCache) (table : String) : ParentCache :=
  { c with slots := c.slots.filter (·.1 ≠ table) }

def clear (c : ParentCache) : ParentCache :=
  { c with slots := [] }

def remember (c : ParentCache) (table : String) (id : RowId) (row : Row) : ParentCache :=
  { c with slots := (table, ⟨id, row⟩) :: c.slots }

theorem slot?_remember (c : ParentCache) (table t : String) (id : RowId) (row : Row) :
    (c.remember table id row).slot? t = if table = t then some ⟨id, row⟩ else c.slot? t := by
  by_cases h : table = t <;> simp [remember, slot?, h]

theorem slot?_evict (c : ParentCache) (table t : String) :
    (c.evict table).slot? t = if table = t then none else c.slot? t := by
  simp only [evict, slot?, List.find?_filter]
  by_cases h : table = t
  · subst h
    simp
  · rw [if_neg h]
    congr 2
    funext x
    by_cases hx : x.1 = t
    · subst hx
      simp [Ne.symm h]
    · simp [hx]

-- Asks the store, and gives the table's slot to the answer. A table that the catalog does not know
-- is not asked for.
def fetch (a : Archive) (table : String) (id : RowId) (c : ParentCache) :
    Except ParentError Row × ParentCache :=
  let c := c.evict table
  match a.catalog.table table with
  | .error cause => (.error (.catalog cause), c)
  | .ok t =>
    let c := { c with fetches := c.fetches + 1 }
    match a.store.find? t.name id with
    | some row => (.ok row, c.remember table id row)
    | none     => (.error (.notFound table id), c)

-- The row of a parent table. The slot answers only for the very identity that it holds.
def parent (a : Archive) (table : String) (id : RowId) (c : ParentCache) :
    Except ParentError Row × ParentCache :=
  match c.slot? table with
  | some slot =>
    if slot.id = id then (.ok slot.row, { c with hits := c.hits + 1 }) else fetch a table id c
  | none => fetch a table id c

-- Forgets a row that has been changed, if it is the one in its table's slot.
def rowUpdated (c : ParentCache) (row : Row) : ParentCache :=
  match c.slot? row.table.name with
  | some slot => if slot.id = row.id then c.evict row.table.name else c
  | none => c

end ParentCache

end ReportExchange
