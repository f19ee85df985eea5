import ReportExchange.Catalog.Basic

namespace ReportExchange.Catalog

-- A table that the search has come to, with the relations that lead to it, the lowest first.
structure Trail where
  table : Table
  path  : List Relation

-- What the search sees from one level: the way it looks for, or the level above.
inductive Outlook
  | found (path : List Relation)
  | beyond (seen : List String) (level : List Trail)

-- Looks along the steps that lead out of one level. A table is entered at most once, and the first
-- one that declares the column ends the search.
def survey (c : Catalog) (column : String) (seen : List String) (level : List Trail) :
    List (List Relation × Relation) → Outlook
  | [] => .beyond seen level
  | (path, r) :: steps =>
    if r.parent ∈ seen then survey c column seen level steps
    else match c.table? r.parent with
      | none => survey c column (r.parent :: seen) level steps
      | some t =>
        if t.declares column then .found (path ++ [r])
        else survey c column (r.parent :: seen) (level ++ [⟨t, path ++ [r]⟩]) steps

def stepsFrom (level : List Trail) : List (List Relation × Relation) :=
  level.flatMap fun trail => trail.table.directParents.map fun r => (trail.path, r)

-- There are no more levels than tables.
def climb (c : Catalog) (column : String) : Nat → List String → List Trail → Option (List Relation)
  | 0, _, _ => none
  | fuel + 1, seen, level =>
    match survey c column seen [] (stepsFrom level) with
    | .found path => some path
    | .beyond _ [] => none
    | .beyond seen level => climb c column fuel seen level

-- The chain of direct relations to the nearest ancestor that declares the column, lowest first. The
-- table itself is not its own ancestor.
def pathToAncestor (c : Catalog) (start column : String) : Option (List Relation) :=
  match c.table? start with
  | none => none
  | some t => climb c column (c.tables.length + 1) [start] [⟨t, []⟩]

end ReportExchange.Catalog
