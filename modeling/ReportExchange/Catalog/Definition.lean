import ReportExchange.Envelope.Field
import ReportExchange.Schema.Table

namespace ReportExchange

structure TableDefinition where
  name            : String
  traversable     : Bool := false
  generatesRecord : Bool := false
  columns         : List Column := []
deriving DecidableEq, Repr

structure CatalogDefinition where
  tables    : List TableDefinition := []
  relations : List Relation := []
deriving DecidableEq, Repr

inductive CatalogError
  | tableNotFound (name : String)
  | duplicateTable (name : String)
  | duplicateColumn (table column : String)
  | selfRelation (table : String)
  | duplicateRelation (parent child : String)
  | relationCycle (path : List String)
  | unknownEnvelopeField (table column sectionName : String)
  | invalidFormula (table column : String) (reason : Formula.Malformed)
  | unreadable (reason : String)
  | malformed
deriving DecidableEq, Repr

namespace CatalogError

def message : CatalogError → String
  | tableNotFound name => "Schema not found: " ++ name
  | duplicateTable name => "Duplicate schema name: " ++ name
  | duplicateColumn table column =>
    "Duplicate column '" ++ column ++ "' in schema '" ++ table ++ "'"
  | selfRelation table => "Schema '" ++ table ++ "' cannot be its own direct child"
  | duplicateRelation parent child =>
    "More than one direct relation " ++ parent ++ " -> " ++ child
  | relationCycle path => "Direct relations form a cycle: " ++ " -> ".intercalate path
  | unknownEnvelopeField table column sectionName =>
    "Column '" ++ column ++ "' of '" ++ table ++ "' is routed to the " ++ sectionName ++
    " block but is not a " ++ sectionName ++ " field"
  | invalidFormula table column reason =>
    "Invalid formula on " ++ table ++ "." ++ column ++ ": " ++ reason.message
  | unreadable reason => "Failed to read catalog: " ++ reason
  | malformed => "Invalid catalog definition"

end CatalogError

namespace TableDefinition

-- A column that overrides an envelope field has to be named after one.
def checkSection (table : String) (c : Column) : Except CatalogError Unit :=
  match c.output with
  | .header =>
    if (HeaderField.ofTag? c.id).isSome then .ok ()
    else .error (.unknownEnvelopeField table c.id "header")
  | .operation =>
    if (OperationField.ofTag? c.id).isSome then .ok ()
    else .error (.unknownEnvelopeField table c.id "operation")
  | .none | .record => .ok ()

def checkFormula (table : String) (c : Column) (text : Option String) : Except CatalogError Unit :=
  match text with
  | none => .ok ()
  | some text =>
    match Formula.compile text with
    | .ok _ => .ok ()
    | .error reason => .error (.invalidFormula table c.id reason)

-- One column after another, each with all of its checks.
def checkColumns (table : String) (seen : List String) : List Column → Except CatalogError Unit
  | [] => .ok ()
  | c :: cs => do
    if c.id ∈ seen then throw (.duplicateColumn table c.id)
    checkSection table c
    checkFormula table c c.codeFormula
    checkFormula table c c.labelFormula
    checkColumns table (c.id :: seen) cs

end TableDefinition

namespace CatalogDefinition

def names (d : CatalogDefinition) : List String :=
  d.tables.map (·.name)

def checkTables (seen : List String) : List TableDefinition → Except CatalogError Unit
  | [] => .ok ()
  | t :: ts => do
    if t.name ∈ seen then throw (.duplicateTable t.name)
    t.columns |> TableDefinition.checkColumns t.name []
    checkTables (t.name :: seen) ts

-- Both ends of a relation exist, and a direct one joins two tables that no other direct one joins.
def checkRelations (names : List String) (seen : List (String × String)) :
    List Relation → Except CatalogError Unit
  | [] => .ok ()
  | r :: rs => do
    if r.parent ∉ names then throw (.tableNotFound r.parent)
    if r.child ∉ names then throw (.tableNotFound r.child)
    if r.direct then
      if r.parent = r.child then throw (.selfRelation r.parent)
      if (r.parent, r.child) ∈ seen then throw (.duplicateRelation r.parent r.child)
      checkRelations names ((r.parent, r.child) :: seen) rs
    else checkRelations names seen rs

end CatalogDefinition

end ReportExchange
