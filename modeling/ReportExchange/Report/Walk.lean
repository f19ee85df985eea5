import ReportExchange.Ancestor.Inject
import ReportExchange.Formula.Evaluation

namespace ReportExchange

-- Column names and codes in the order in which they are written.
abbrev Fields := List (String × String)

namespace Fields

-- The own fields of a row after those that it inherits and does not have itself.
def extend (inherited own : Fields) : Fields :=
  inherited.filter (fun f => !own.any (·.1 = f.1)) ++ own

def get? (fields : Fields) (tag : String) : Option String :=
  (fields.find? (·.1 = tag)).map (·.2)

theorem get?_append (a b : Fields) (tag : String) :
    Fields.get? (a ++ b) tag = (Fields.get? a tag).or (Fields.get? b tag) := by
  simp only [get?, List.find?_append]
  cases List.find? (·.1 = tag) a <;> simp

-- Own fields hide inherited ones of the same tag.
theorem get?_extend (inherited own : Fields) (tag : String) :
    (inherited.extend own).get? tag =
      if own.any (·.1 = tag) then own.get? tag else inherited.get? tag := by
  simp only [extend, get?_append]
  by_cases h : own.any (·.1 = tag)
  · rw [if_pos h]
    have : (List.filter (fun f => !own.any (·.1 = f.1)) inherited).find? (·.1 = tag) = none := by
      simp only [List.find?_eq_none, List.mem_filter, decide_eq_true_eq]
      rintro f ⟨_, hf⟩ rfl
      simp [h] at hf
    simp [get?, this]
  · rw [if_neg h]
    have : own.find? (·.1 = tag) = none :=
      List.find?_eq_none.2 fun f hf e => h (List.any_eq_true.2 ⟨f, hf, e⟩)
    simp only [get?, this, Option.map_none, Option.or_none, List.find?_filter]
    congr 2
    funext f
    by_cases hf : f.1 = tag
    · subst hf
      simp [h]
    · simp [hf]

end Fields

-- A row that has still to be visited, with what it inherits.
structure Frame where
  row       : Row
  inherited : Fields
  -- The number of relations that lead down to it from the root.
  depth     : Nat

structure Walk where
  stack   : List Frame := []
  cache   : ParentCache := {}
  visited : Nat := 0
  results : List Fields := []
  faults  : List CellFault := []

namespace Walk

-- The fields that a row contributes; a column whose formula failed is left out.
def ownFields (row : Row) (failed : List String) : Fields :=
  ((row.table.columnsWith .record).filter (·.id ∉ failed)).map fun c =>
    (c.id, (row.code c.id).getD "")

def failedColumns (faults : List CellFault) : List String :=
  faults.map (·.cell.column)

-- The rows below a row in one of its child tables, each with its parent's identity.
def childrenIn (a : Archive) (row : Row) (child : Table) : List Row :=
  if child.traversable then
    (a.store.childrenOf child.name row.table.name row.id).map fun c => (row.injectParent c).getD c
  else []

-- The rows below a row: the child tables of the last relations come first.
def childrenOf (a : Archive) (row : Row) : Except CatalogError (List Row) := do
  let groups ← row.table.directChildren.mapM fun r => do
    let child ← a.catalog.table r.child
    return childrenIn a row child
  return groups.reverse.flatten

-- Visits a row whose formulas have been computed.
def visit (a : Archive) (w : Walk) (row : Row) (failed : List String) (inherited : Fields)
    (depth : Nat) : Except CatalogError Walk := do
  let fields := inherited.extend (ownFields row failed)
  let children ← childrenOf a row
  return { w with
    stack   := children.map (fun c => ⟨c, fields, depth + 1⟩) ++ w.stack
    visited := w.visited + 1
    results := if row.table.generatesRecord then w.results ++ [fields] else w.results }

-- Computes the formulas of a row and notes those that failed.
def refresh (a : Archive) (w : Walk) (row : Row) : (Row × List String) × Walk :=
  let ((row, faults), cache) := (Formula.resolveRow a row).run w.cache
  ((row, failedColumns faults), { w with cache, faults := w.faults ++ faults })

-- Takes the next row from the stack.
def step (a : Archive) (w : Walk) : Except CatalogError Walk :=
  match w.stack with
  | [] => .ok w
  | f :: rest =>
    let ((row, failed), w) := refresh a { w with stack := rest } f.row
    w.visit a row failed f.inherited f.depth

def run (a : Archive) : Nat → Walk → Except CatalogError Walk
  | 0, w => .ok w
  | n + 1, w =>
    if w.stack.isEmpty then .ok w
    else match step a w with
      | .ok w    => run a n w
      | .error e => .error e

-- An upper bound on the rows that can be visited: no row has more children than there are rows, and
-- no row is deeper than there are tables.
def bound (a : Archive) : Nat :=
  Nat.pow (a.store.size + 1) (a.catalog.tables.length + 1)

-- Walks through everything below a row that has been refreshed.
def through (a : Archive) (w : Walk) (root : Row) (failed : List String) :
    Except CatalogError Walk :=
  match w.visit a root failed [] 0 with
  | .ok w    => run a (bound a) w
  | .error e => .error e

end Walk

-- The results of a report, without a message around them.
def flatten (a : Archive) (root : Row) : Except CatalogError (List Fields) :=
  let ((root, failed), w) := Walk.refresh a {} root
  (w.through a root failed).map (·.results)

end ReportExchange
