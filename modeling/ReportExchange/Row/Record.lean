import ReportExchange.Datum.Basic
import ReportExchange.Datum.Extent
import ReportExchange.Index
import ReportExchange.Row.Basic

namespace ReportExchange

open Datum

-- A row without its table; the cells stand in the order of their columns' names.
structure Record where
  id      : RowId := .unset
  version : Option String := none
  cells   : List (String × Cell) := []
deriving DecidableEq, Repr

namespace Cell

-- A plain cell is written as its code alone.
def toDatum (c : Cell) : Datum :=
  if c.label = c.code then .text c.code
  else .record [("code", .text c.code), ("label", .text c.label)]

-- The brackets around and in a cell of a data file are at most 127, and four stand around it.
def depth : Nat := 123

-- A cell has two written forms, so it is held as a whole before it is read.
def ofDatum? : Datum → Option Cell
  | .text code => some (plain code)
  | d => do
    guard (d.fits depth)
    let m ← d.members? .json ["code", "label"]
    return {
      code  := ← m.withDefault "code" "" text?
      label := ← m.withDefault "label" "" text? }

end Cell

def RowId.toDatum (id : RowId) : Datum :=
  .ofInt id.val.toInt

def RowId.ofDatum? (d : Datum) : Option RowId :=
  d.int64?.map RowId.mk

namespace Record

def cellsOfDatum? (d : Datum) : Option (List (String × Cell)) := do
  let entries ← d.entries?
  let cells ← entries.mapM fun (column, value) => (Cell.ofDatum? value).map fun c => (column, c)
  return Index.ofList cells

def ofDatum? (d : Datum) : Option Record := do
  let m ← d.members? .json ["id", "version", "cells"]
  return {
    id      := ← m.withDefault "id" .unset RowId.ofDatum?
    version := ← m.withDefault "version" none (nullable text?)
    cells   := ← m.withDefault "cells" [] cellsOfDatum? }

def toDatum (r : Record) : Datum :=
  .record (
    [("id", r.id.toDatum)] ++
    (r.version.map fun v => ("version", Datum.text v)).toList ++
    [("cells", .record (r.cells.map fun (column, c) => (column, c.toDatum)))])

end Record

namespace Row

def toRecord (r : Row) : Record where
  id      := r.id
  version := r.version
  cells   := Index.ofList r.populated

-- A row of a table from its record; the first column that the table lacks decides.
def ofRecord (t : Table) (r : Record) : Except Undeclared Row :=
  r.cells.foldlM (fun row (column, cell) => row.put column cell)
    (((blank t).withId r.id).withVersion r.version)

end Row

end ReportExchange
