import ReportExchange.Catalog.Basic
import ReportExchange.Json.Printer
import ReportExchange.Json.Reader
import ReportExchange.Row.Record
import ReportExchange.Store.Basic

namespace ReportExchange

open Datum

inductive StoreError
  | malformed
  | unreadable (reason : String)
  | row (cause : Row.Undeclared)
  | catalog (cause : CatalogError)
  -- A row has come to the last identity.
  | exhausted
deriving DecidableEq, Repr

namespace StoreError

def message : StoreError → String
  | malformed => "Invalid data file"
  | unreadable reason => "Failed to read data file: " ++ reason
  | row cause => cause.message
  | catalog cause => cause.message
  | exhausted => "attempt to add with overflow"

end StoreError

namespace Store

-- The tables of a file in the order of their names; of two with one name the last counts.
def tablesOfDatum? (d : Datum) : Option (List (String × List Record)) := do
  let entries ← d.entries?
  let tables ← entries.mapM fun (name, items) =>
    (each Record.ofDatum? items).map fun records => (name, records)
  return Index.ofList tables

def addRecord (t : Table) (s : Store) (record : Record) : Except StoreError Store :=
  match Row.ofRecord t record with
  | .error cause => .error (.row cause)
  | .ok row      =>
    match s.add row with
    | some (_, s) => .ok s
    | none        => .error .exhausted

theorem addRecord_eq_ok_iff {t : Table} {s s' : Store} {record : Record} :
    addRecord t s record = .ok s' ↔
      ∃ row id, Row.ofRecord t record = .ok row ∧ s.add row = some (id, s') := by
  rw [addRecord]
  cases hr : Row.ofRecord t record
  case error => simp
  case ok row =>
    cases ha : s.add row
    case none => simp [ha]
    case some added =>
      obtain ⟨id, s⟩ := added
      simp [ha]

def addRecords (t : Table) (s : Store) (records : List Record) : Except StoreError Store :=
  records.foldlM (addRecord t) s

def addTable (c : Catalog) (s : Store) (name : String) (records : List Record) :
    Except StoreError Store :=
  match c.table name with
  | .ok t        => addRecords t s records
  | .error cause => .error (.catalog cause)

-- The store that a file describes; the first table or column that the catalog lacks decides.
def ofTables (c : Catalog) (tables : List (String × List Record)) : Except StoreError Store :=
  tables.foldlM (fun s (name, records) => addTable c s name records) {}

def ofDatum (c : Catalog) (d : Datum) : Except StoreError Store :=
  match tablesOfDatum? d with
  | some tables => ofTables c tables
  | none        => .error .malformed

def ofJson (c : Catalog) (text : String) : Except StoreError Store :=
  match Json.read? text with
  | some d => ofDatum c d
  | none   => .error .malformed

def toTables (s : Store) : List (String × List Record) :=
  Index.ofList (s.shelves.map fun shelf => (shelf.table, shelf.rows.map Row.toRecord))

def toDatum (s : Store) : Datum :=
  .record (s.toTables.map fun (name, records) => (name, .list (records.map Record.toDatum)))

def toJson (s : Store) : String :=
  Json.pretty s.toDatum

end Store

end ReportExchange
