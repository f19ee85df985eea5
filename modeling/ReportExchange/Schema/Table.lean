import ReportExchange.Schema.Column

namespace ReportExchange

-- An edge from a parent table to a child table. A direct one is a foreign key; one that is not
-- direct says that the parent is an ancestor further up, whose identity the child may carry.
structure Relation where
  parent : String
  child  : String
  direct : Bool := true
deriving DecidableEq, Repr

namespace Relation

def foreignKey (r : Relation) : String :=
  ReportExchange.foreignKey r.parent

end Relation

-- A table of the catalog: its columns, and all relations that it takes part in.
structure Table where
  name             : String
  columns          : List Column
  -- Relations in which the table is the parent, or the child.
  children         : List Relation
  parents          : List Relation
  -- Exports descend into the rows of the table.
  traversable      : Bool
  -- Every visited row of the table gives one record.
  generatesRecord  : Bool
deriving DecidableEq, Repr

namespace Table

def column? (t : Table) (id : String) : Option Column :=
  t.columns.find? (·.id = id)

def declares (t : Table) (id : String) : Bool :=
  t.columns.any (·.id = id)

def columnsWith (t : Table) (output : Output) : List Column :=
  t.columns.filter (·.output = output)

def formulaColumns (t : Table) : List Column :=
  t.columns.filter (·.hasFormula)

def naturalKeyColumns (t : Table) : List Column :=
  t.columns.filter (·.naturalKey)

def directChildren (t : Table) : List Relation :=
  t.children.filter (·.direct)

def directParents (t : Table) : List Relation :=
  t.parents.filter (·.direct)

-- The relation from a parent; a direct one goes before any other, and of equals the last counts.
def relationTo (t : Table) (parent : String) : Option Relation :=
  let candidates := t.parents.filter (·.parent = parent)
  match (candidates.filter (·.direct)).getLast? with
  | some r => some r
  | none   => candidates.getLast?

end Table

end ReportExchange
