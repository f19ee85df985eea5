import ReportExchange.Intake.Parser
import ReportExchange.Text.Split

namespace ReportExchange

open Text

-- A field whose text is `key=value`, of which only the value is kept, in a column of its own.
structure CompositeField where
  tag    : String := "sampInfo"
  column : String := "sampInfoValue"
deriving DecidableEq, Repr

namespace CompositeField

-- What follows the first equals sign, without blanks around it.
def valueOf (text : String) : String :=
  let cs := text.toList
  String.ofList (trimmed ((afterFirst '=' cs).getD cs))

end CompositeField

namespace Row

def putField (composite : Option CompositeField) (row : Row) (tag text : String) :
    Except Undeclared Row :=
  match composite.filter (·.tag = tag) with
  | some c => row.putCode c.column (CompositeField.valueOf text)
  | none =>
    if tag = Tag.datasetVersion && !row.table.declares tag then .ok (row.withVersion (some text))
    else row.putCode tag text

end Row

-- Results as rows of a table. The dataset's version goes to the row, unless the table has a column
-- for it.
def rowAssembler (t : Table) (composite : Option CompositeField) : Assembler Row Row where
  blank := Row.blank t
  field row tag text :=
    match row.putField composite tag text with
    | .ok row      => .ok row
    | .error cause => .error (.undeclared cause)
  finish := id

end ReportExchange
