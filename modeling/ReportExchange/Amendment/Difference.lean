import ReportExchange.Amendment.Comparison

namespace ReportExchange.Difference

-- Every row needs an identity that no row before it has.
def identify (seen : List String) : List (Comparison × Nat) →
    Except IntakeError (List (String × Comparison))
  | [] => .ok []
  | (row, position) :: rows =>
    match row.rowId with
    | none => .error ⟨position, .missingRowId⟩
    | some id =>
      if id ∈ seen then .error ⟨position, .duplicateRowId id⟩
      else (identify (id :: seen) rows).map ((id, row) :: ·)

-- The rows of a document with their identities. A row that has none, or one that stands twice, is
-- found before anything that is wrong further on.
def rowsOf (document : List Xml.Reading) : Except IntakeError (List (String × Comparison)) :=
  let (rows, failure, _) := (Parser.ofReadings document).all Comparison.assembler
  match identify [] rows, failure with
  | .error e, _       => .error e
  | .ok _, some e     => .error e
  | .ok rows, none    => .ok rows

def marked (a : AmendmentType) (c : Comparison) : Comparison :=
  { c with amendment := some a }

-- How a row of the new version is to be marked; nothing if it has not changed.
def amendmentOf (old : List (String × Comparison)) (id : String) (row : Comparison) :
    Option AmendmentType :=
  match old.find? (·.1 = id) with
  | none => some .added
  | some previous => if previous.2.sameContent row then none else some .modified

-- Added and modified rows in the order of the new version, then deleted ones in that of the old.
def between (old new : List (String × Comparison)) : List Comparison :=
  (new.filterMap fun (id, row) => (amendmentOf old id row).map fun a => marked a row) ++
  (old.filter fun (id, _) => !new.any (·.1 = id)).map fun (_, row) => marked .deleted row

-- The amendments between two documents; a fault in the old one is found first.
def ofReadings (old new : List Xml.Reading) : Except IntakeError (List Comparison) := do
  let oldRows ← rowsOf old
  let newRows ← rowsOf new
  return between oldRows newRows

def diff (old new : List UInt8) : Except IntakeError (List Comparison) :=
  ofReadings (Xml.readings old) (Xml.readings new)

end ReportExchange.Difference
