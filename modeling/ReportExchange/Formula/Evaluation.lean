import ReportExchange.Ancestor.Cache

namespace ReportExchange

inductive FormulaError
  | malformed (cause : Formula.Malformed)
  | unknownColumn (column table : String)
  | unresolved (column : String) (half : Half)
  | missingParent (table parent : String)
  | tooDeep (formula : String)
  | parent (cause : ParentError)
deriving DecidableEq, Repr

namespace FormulaError

def message : FormulaError → String
  | malformed cause => cause.message
  | unknownColumn column table =>
    "Column '" ++ column ++ "' is unknown to '" ++ table ++ "' and all of its ancestors"
  | unresolved column half =>
    "Formula on '" ++ column ++ "." ++ half.name ++ "' is still unresolved"
  | missingParent table up =>
    "Row of '" ++ table ++ "' has no '" ++ up ++ "' parent to read from"
  | tooDeep formula => "Formula '" ++ formula ++ "' chains too deep"
  | parent cause => "Parent lookup failed: " ++ cause.message

end FormulaError

-- One half of a column's cell.
structure CellHalf where
  column : String
  half   : Half
deriving DecidableEq, Repr

-- A formula that failed, with the cell that it was to fill.
structure CellFault where
  table : String
  row   : RowId
  cell  : CellHalf
  cause : FormulaError
deriving DecidableEq, Repr

def CellFault.message (f : CellFault) : String :=
  f.table ++ "[" ++ f.row.text ++ "]." ++ f.cell.column ++ "." ++ f.cell.half.name ++ ": " ++
  f.cause.message

namespace Formula

-- What a formula finds in a row: a value, or the text of the formula that will give one.
inductive Value
  | resolved (text : String)
  | deferred (formula : String)
deriving DecidableEq, Repr

-- Reads a formula in one row. There is no answer if the row's table lacks the column.
def resolve (f : Formula) (row : Row) : Option Value :=
  match row.table.column? f.column with
  | none => none
  | some column =>
    let value := (row.half f.column f.half).getD ""
    if value ≠ "" then some (.resolved value)
    else match column.formulaFor f.half with
      | some text => some (.deferred text)
      | none      => some (.resolved "")

-- Reading that goes through the cache of parents; a failure leaves the cache as it was then.
abbrev Reading := ExceptT FormulaError (StateM ParentCache)

namespace Reading

def parent (a : Archive) (table : String) (id : RowId) : Reading Row := fun cache =>
  match cache.parent a table id with
  | (.ok row, cache)      => (.ok row, cache)
  | (.error cause, cache) => (.error (.parent cause), cache)

end Reading

-- Follows foreign keys upwards along a chain of relations.
def follow (a : Archive) : Row → List Relation → Reading Row
  | row, [] => pure row
  | row, r :: rs =>
    match row.parentId r.parent with
    | none => throw (.missingParent row.table.name r.parent)
    | some id => do
      let parent ← Reading.parent a r.parent id
      follow a parent rs

-- The nearest ancestor of a row whose table declares the column.
def ancestor (a : Archive) (row : Row) (column : String) : Reading Row :=
  match a.catalog.pathToAncestor row.table.name column with
  | some path => follow a row path
  | none      => throw (.unknownColumn column row.table.name)

-- How many rows and formulas a chain may lead through.
def chainLimit : Nat := 32

-- The value of a formula in a row that is not itself under evaluation. Formulas on the way are
-- followed in their turn.
def lookUp (a : Archive) : Nat → Row → Formula → Reading String
  | 0, _, f => throw (.tooDeep f.source)
  | budget + 1, row, f =>
    match f.resolve row with
    | some (.resolved value) => pure value
    | some (.deferred text) =>
      match compile text with
      | .ok next      => lookUp a budget row next
      | .error cause  => throw (.malformed cause)
    | none => do
      let up ← ancestor a row f.column
      lookUp a budget up f

-- A formula column's formula, with the cell that it fills.
structure Target where
  cell    : CellHalf
  formula : Formula
deriving DecidableEq, Repr

-- The formulas of one column that can be read, and the faults of those that cannot.
def columnTargets (c : Column) : List (Except (CellHalf × FormulaError) Target) :=
  Half.all.filterMap fun half =>
    (c.formulaFor half).map fun text =>
      match compile text with
      | .ok f        => .ok ⟨⟨c.id, half⟩, f⟩
      | .error cause => .error (⟨c.id, half⟩, .malformed cause)

def allTargets (t : Table) : List (Except (CellHalf × FormulaError) Target) :=
  t.formulaColumns.flatMap columnTargets

def targets (t : Table) : List Target :=
  (allTargets t).filterMap (·.toOption)

def pin (row : Row) (cell : CellHalf) (cause : FormulaError) : CellFault :=
  ⟨row.table.name, row.id, cell, cause⟩

def malformedFaults (row : Row) : List CellFault :=
  (allTargets row.table).filterMap fun
    | .error (cell, cause) => some (pin row cell cause)
    | .ok _ => none

-- The state of an evaluation: the row so far, the cells that wait, and those that have failed.
structure Sweep where
  row     : Row
  pending : List CellHalf
  failed  : List CellHalf
  faults  : List CellFault

namespace Sweep

def settle (s : Sweep) (cell : CellHalf) (value : String) : Sweep :=
  { s with
    row     := (s.row.setHalf cell.column cell.half value).toOption.getD s.row
    pending := s.pending.erase cell }

def fail (s : Sweep) (cell : CellHalf) (cause : FormulaError) : Sweep :=
  { s with
    pending := s.pending.erase cell
    failed  := cell :: s.failed
    faults  := s.faults ++ [pin s.row cell cause] }

end Sweep

-- The value of a formula in the row under evaluation; none if it has to wait.
def evaluate (a : Archive) (s : Sweep) (f : Formula) : Reading (Option String) :=
  if s.row.table.declares f.column then
    if ⟨f.column, f.half⟩ ∈ s.failed then throw (.unresolved f.column f.half)
    else if ⟨f.column, f.half⟩ ∈ s.pending then pure none
    else pure (some ((s.row.half f.column f.half).getD ""))
  else do
    let up ← ancestor a s.row f.column
    let value ← lookUp a chainLimit up f
    return some value

def attempt (a : Archive) (s : Sweep) (t : Target) : StateM ParentCache Sweep := do
  if t.cell ∈ s.pending then
    match ← (evaluate a s t.formula).run with
    | .ok (some value) => return s.settle t.cell value
    | .ok none         => return s
    | .error cause     => return s.fail t.cell cause
  else return s

def pass (a : Archive) (ts : List Target) (s : Sweep) : StateM ParentCache Sweep :=
  ts.foldlM (attempt a) s

-- Passes over all formulas until none waits or a whole pass brings nothing new.
def passes (a : Archive) (ts : List Target) : Nat → Sweep → StateM ParentCache Sweep
  | 0, s => return s
  | n + 1, s =>
    if s.pending.isEmpty then return s
    else do
      let s' ← pass a ts s
      if s'.pending.length = s.pending.length then return s' else passes a ts n s'

def cleared (row : Row) (ts : List Target) : Row :=
  ts.foldl (fun row t => row.clearHalf t.cell.column t.cell.half) row

-- Computes every formula cell of a row anew. A cell that fails stays empty and gives one fault.
def resolveRow (a : Archive) (row : Row) : StateM ParentCache (Row × List CellFault) := do
  let ts := targets row.table
  let s ← passes a ts (ts.length + 1) ⟨cleared row ts, ts.map (·.cell), [], malformedFaults row⟩
  let left := (ts.map (·.cell)).filter (· ∈ s.pending)
  return (s.row, s.faults ++ left.map fun cell => pin row cell (.unresolved cell.column cell.half))

-- Computes the formula for one half of a column from the row as it stands.
def refreshHalf (a : Archive) (row : Row) (c : Column) (half : Half) : Reading Row :=
  match c.formulaFor half with
  | none => pure row
  | some text =>
    match compile text with
    | .error cause => throw (.malformed cause)
    | .ok f =>
      if f.column = c.id ∧ f.half = half then throw (.unresolved c.id half)
      else do
        let value ← lookUp a (chainLimit + 1) row f
        match row.setHalf c.id half value with
        | .ok row  => return row
        | .error _ => throw (.unknownColumn c.id row.table.name)

-- Computes the formulas of one column; an error leaves what was written before it.
def refreshColumn (a : Archive) (row : Row) (column : String) :
    StateM ParentCache (Row × Except FormulaError Unit) := do
  match row.table.column? column with
  | none => return (row, .error (.unknownColumn column row.table.name))
  | some c =>
    match ← (refreshHalf a row c .code).run with
    | .error cause => return (row, .error cause)
    | .ok row =>
      match ← (refreshHalf a row c .label).run with
      | .error cause => return (row, .error cause)
      | .ok row => return (row, .ok ())

end Formula

end ReportExchange
