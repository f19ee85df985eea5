import ReportExchange.Catalog.Definition

namespace ReportExchange.Acyclic

def childrenOf (relations : List Relation) (name : String) : List String :=
  (relations.filter fun r => r.direct && r.parent = name).map (·.child)

-- The cycle that a step back to `child` closes. The open path has its innermost table first.
def cycleAt (child : String) (openPath : List String) : List String :=
  child :: (openPath.takeWhile (· ≠ child)).reverse ++ [child]

-- Visits a table and everything below it, and adds them to the tables that are done; fails with the
-- first cycle. No path is longer than the number of tables, which is what `fuel` counts.
def visit (relations : List Relation) :
    Nat → List String → List String → String → Except (List String) (List String)
  | 0, _, done, _ => .ok done
  | fuel + 1, openPath, done, name => do
    let done ← (childrenOf relations name).foldlM (fun done child =>
      if child ∈ name :: openPath then .error (cycleAt child (name :: openPath))
      else if child ∈ done then .ok done
      else visit relations fuel (name :: openPath) done child) done
    return name :: done

-- Depth first, in the order of the definition.
def check (names : List String) (relations : List Relation) : Except (List String) (List String) :=
  names.foldlM (fun done name =>
    if name ∈ done then .ok done else visit relations names.length [] done name) []

end ReportExchange.Acyclic
