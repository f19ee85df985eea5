import ReportExchange.Row.Basic

namespace ReportExchange.Row

-- Gives a child the identity of an ancestor, where it has a place for it that holds none.
def fillAncestor (child : Row) (ancestor : String) (id : RowId) : Row :=
  if child.table.declares (foreignKey ancestor) && (child.parentId ancestor).isNone then
    match child.setParentId ancestor id with
    | .ok child => child
    | .error _  => child
  else child

-- The identities that a row knows of its own ancestors.
def ancestorIds (r : Row) : List (String × RowId) :=
  r.table.parents.filterMap fun up => (r.parentId up.parent).map fun id => (up.parent, id)

-- The child with the parent's identity in its foreign key, and with the identities of further
-- ancestors that the parent knows and the child does not. Without a relation between the two tables
-- there is nothing to write.
def injectParent (parent child : Row) : Option Row := do
  let relation ← child.table.relationTo parent.table.name
  let child ← (child.setParentId relation.parent parent.id).toOption
  return parent.ancestorIds.foldl (fun child (ancestor, id) => child.fillAncestor ancestor id) child

end ReportExchange.Row
