import ReportExchange.Row.Basic

namespace ReportExchange

-- The rows of one table, each identity once and in ascending order.
structure Shelf where
  table     : String
  rows      : List Row
  ascending : rows.Pairwise fun a b => a.id.val < b.id.val
  homed     : ∀ r ∈ rows, r.table.name = table

namespace Shelf

def place (row : Row) : List Row → List Row
  | [] => [row]
  | r :: rs =>
    if row.id.val < r.id.val then row :: r :: rs
    else if row.id = r.id then row :: rs
    else r :: place row rs

theorem mem_place {row x : Row} {rows : List Row} (h : x ∈ place row rows) :
    x = row ∨ x ∈ rows := by
  induction rows with
  | nil => simpa [place] using h
  | cons r rs ih =>
    simp only [place] at h
    split at h
    · simpa using h
    · split at h
      · rcases List.mem_cons.1 h with h | h
        · exact .inl h
        · exact .inr (by simp [h])
      · rcases List.mem_cons.1 h with h | h
        · exact .inr (by simp [h])
        · rcases ih h with h | h
          · exact .inl h
          · exact .inr (by simp [h])

theorem place_ascending {row : Row} {rows : List Row}
    (h : rows.Pairwise fun a b => a.id.val < b.id.val) :
    (place row rows).Pairwise fun a b => a.id.val < b.id.val := by
  induction rows with
  | nil => simp [place]
  | cons r rs ih =>
    rw [List.pairwise_cons] at h
    simp only [place]
    split
    · next lt =>
      refine .cons (fun x hx => ?_) (.cons h.1 h.2)
      rcases List.mem_cons.1 hx with rfl | hx
      · exact lt
      · exact Int64.lt_trans lt (h.1 x hx)
    · next nlt =>
      split
      · next e => exact .cons (fun x hx => by rw [e]; exact h.1 x hx) h.2
      · next ne =>
        refine .cons (fun x hx => ?_) (ih h.2)
        rcases mem_place hx with rfl | hx
        · rw [Int64.lt_iff_toInt_lt] at nlt ⊢
          have : r.id.val.toInt ≠ x.id.val.toInt := fun e =>
            ne (by rw [show x.id = ⟨x.id.val⟩ from rfl, Int64.toInt.inj e.symm])
          omega
        · exact h.1 x hx

theorem find?_place (row : Row) (rows : List Row) (id : RowId) :
    (place row rows).find? (·.id = id) =
      if row.id = id then some row else rows.find? (·.id = id) := by
  induction rows with
  | nil => by_cases h : row.id = id <;> simp [place, h]
  | cons r rs ih =>
    simp only [place]
    split
    · by_cases h : row.id = id <;> simp [List.find?_cons, h]
    · split
      · next e => by_cases h : row.id = id <;> simp [h, ← e]
      · next ne =>
        rw [List.find?_cons, ih, List.find?_cons]
        by_cases h : row.id = id
        · subst h
          simp [Ne.symm ne]
        · simp [h]

-- Puts a row in its place; a row of the same identity is replaced.
def insert (s : Shelf) (row : Row) (h : row.table.name = s.table) : Shelf where
  table     := s.table
  rows      := place row s.rows
  ascending := place_ascending s.ascending
  homed x hx := (mem_place hx).elim (· ▸ h) (s.homed x)

def single (row : Row) : Shelf where
  table     := row.table.name
  rows      := [row]
  ascending := by simp
  homed     := by simp

def erase (s : Shelf) (id : RowId) : Shelf where
  table     := s.table
  rows      := s.rows.filter (·.id ≠ id)
  ascending := s.ascending.filter _
  homed x hx := s.homed x (List.mem_filter.1 hx).1

end Shelf

-- All stored rows. A table that has ever held a row keeps its shelf.
structure Store where
  shelves : List Shelf := []
  nextId  : Int64 := 0

namespace Store

def rows (s : Store) (table : String) : List Row :=
  match s.shelves.find? (·.table = table) with
  | some shelf => shelf.rows
  | none       => []

def size (s : Store) : Nat :=
  s.shelves.foldr (·.rows.length + ·) 0

def find? (s : Store) (table : String) (id : RowId) : Option Row :=
  (s.rows table).find? (·.id = id)

-- The rows whose foreign key to a parent table reads as the given identity is written.
def childrenOf (s : Store) (table parent : String) (id : RowId) : List Row :=
  (s.rows table).filter fun r => (r.code (foreignKey parent)).map Text.trim = some id.text

def shelve (row : Row) : List Shelf → List Shelf
  | [] => [Shelf.single row]
  | s :: ss => if h : row.table.name = s.table then s.insert row h :: ss else s :: shelve row ss

theorem rows_shelve (row : Row) (shelves : List Shelf) (n : Int64) (table : String) :
    rows ⟨shelve row shelves, n⟩ table =
      if row.table.name = table then Shelf.place row (rows ⟨shelves, n⟩ table)
      else rows ⟨shelves, n⟩ table := by
  simp only [rows]
  induction shelves with
  | nil => by_cases h : row.table.name = table <;> simp [shelve, Shelf.single, Shelf.place, h]
  | cons s ss ih =>
    by_cases e : row.table.name = s.table
    · by_cases h : s.table = table <;> simp [shelve, Shelf.insert, e, h]
    · simp only [shelve, dif_neg e]
      by_cases hs : s.table = table
      · simp [hs, show ¬ row.table.name = table from fun h => e (h.trans hs.symm)]
      · simpa [List.find?_cons, hs] using ih

-- The identity that a row is stored under: its own if it has one, else the next free one.
def identityFor (s : Store) (row : Row) : RowId :=
  if row.id.isSet then row.id else if s.nextId < 1 then ⟨1⟩ else ⟨s.nextId⟩

-- The store with a row under its identity, and with the number that comes after it.
def extended (s : Store) (row : Row) (next : Int64) : Store where
  shelves := shelve row s.shelves
  nextId  := if s.nextId < next then next else s.nextId

-- Stores a row, and gives it an identity if it has none. Nothing can be stored under the last
-- identity, since there would be no number to go on with.
def add (s : Store) (row : Row) : Option (RowId × Store) :=
  let id := s.identityFor row
  id.next?.map fun next => (id, s.extended (row.withId id) next)

theorem add_eq_none_iff {s : Store} {row : Row} :
    s.add row = none ↔ s.identityFor row = RowId.last := by
  rw [add, Option.map_eq_none_iff, RowId.next?]
  split
  case isTrue h  => exact iff_of_true rfl h
  case isFalse h => exact iff_of_false nofun h

theorem add_eq_some_iff {s s' : Store} {row : Row} {id : RowId} :
    s.add row = some (id, s') ↔
      id = s.identityFor row ∧ id ≠ RowId.last ∧ s' = s.extended (row.withId id) (id.val + 1) := by
  rw [add, Option.map_eq_some_iff]
  constructor
  case mp =>
    rintro ⟨next, hn, h⟩
    cases h
    rw [RowId.next?] at hn
    split at hn
    case isTrue    => cases hn
    case isFalse h =>
      cases hn
      exact ⟨rfl, h, rfl⟩
  case mpr =>
    rintro ⟨rfl, h, rfl⟩
    exact ⟨_, if_neg h, rfl⟩

-- What is found after a row has been added.
theorem find?_add {s s' : Store} {row : Row} {id : RowId} (h : s.add row = some (id, s'))
    (table : String) (i : RowId) :
    s'.find? table i =
      if row.table.name = table ∧ id = i then some (row.withId id) else s.find? table i := by
  obtain ⟨-, -, rfl⟩ := add_eq_some_iff.1 h
  have hn : (row.withId id).table.name = row.table.name := rfl
  have hid : (row.withId id).id = id := rfl
  simp only [extended, find?, rows_shelve, hn]
  by_cases h : row.table.name = table
  · simp only [h, if_true, true_and, Shelf.find?_place, hid]
    rfl
  · simp only [h, if_false, false_and]
    rfl

-- Replaces a stored row; nothing happens if no row has its identity.
def update (s : Store) (row : Row) : Bool × Store :=
  if (s.find? row.table.name row.id).isSome then
    (true, { s with shelves := shelve row s.shelves })
  else (false, s)

def delete (s : Store) (table : String) (id : RowId) : Bool × Store :=
  if (s.find? table id).isSome then
    (true, { s with
      shelves := s.shelves.map fun shelf => if shelf.table = table then shelf.erase id else shelf })
  else (false, s)

end Store

end ReportExchange
