import ReportExchange.Catalog.Acyclic

namespace ReportExchange

structure Catalog where
  tables : List Table
deriving DecidableEq, Repr

namespace Catalog

def table? (c : Catalog) (name : String) : Option Table :=
  c.tables.find? (·.name = name)

def table (c : Catalog) (name : String) : Except CatalogError Table :=
  match c.table? name with
  | some t => .ok t
  | none   => .error (.tableNotFound name)

-- Reports start at tables that are below no other.
def roots (c : Catalog) : List Table :=
  c.tables.filter (·.directParents.isEmpty)

-- The columns with a foreign key for every parent, unless a column of that name is there already.
def withForeignKeys (columns : List Column) (parents : List Relation) : List Column :=
  parents.foldl (fun columns r =>
    if columns.any (·.id = r.foreignKey) then columns else columns ++ [Column.ofParent r.parent])
    columns

def assemble (relations : List Relation) (d : TableDefinition) : Table :=
  let parents := relations.filter (·.child = d.name)
  { name            := d.name
    columns         := withForeignKeys d.columns parents
    children        := relations.filter (·.parent = d.name)
    parents         := parents
    traversable     := d.traversable
    generatesRecord := d.generatesRecord }

def checkAcyclic (d : CatalogDefinition) : Except CatalogError Unit :=
  match Acyclic.check d.names d.relations with
  | .ok _ => .ok ()
  | .error path => .error (.relationCycle path)

-- Checks a definition and builds the catalog; the first defect decides.
def build (d : CatalogDefinition) : Except CatalogError Catalog := do
  CatalogDefinition.checkTables [] d.tables
  CatalogDefinition.checkRelations d.names [] d.relations
  checkAcyclic d
  return ⟨d.tables.map (assemble d.relations)⟩

end Catalog

end ReportExchange
