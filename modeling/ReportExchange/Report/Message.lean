import ReportExchange.Envelope.Operation
import ReportExchange.Envelope.Sender
import ReportExchange.Report.Walk
import ReportExchange.Xml.Element

namespace ReportExchange

structure Message where
  header    : List (HeaderField × String)
  operation : List (OperationField × String)
  -- Absent if the operation carries no dataset.
  dataset   : Option (List Fields)

namespace Message

-- The header with the values that the columns of the root give in place of others.
def overrideHeader (root : Row) (failed : List String) (header : List (HeaderField × String)) :
    List (HeaderField × String) :=
  (root.table.columnsWith .header).foldl (fun header c =>
    match HeaderField.ofTag? c.id, root.code c.id with
    | some field, some code =>
      if c.id ∈ failed then header
      else header.map fun slot => if slot.1 = field then (field, code) else slot
    | _, _ => header) header

def setField (field : OperationField) (value : String) (fields : List (OperationField × String)) :
    List (OperationField × String) :=
  if fields.any (·.1 = field) then
    fields.map fun slot => if slot.1 = field then (field, value) else slot
  else fields ++ [(field, value)]

-- The fields in the order in which an operation block is written.
def inOrder (fields : List (OperationField × String)) : List (OperationField × String) :=
  OperationField.all.flatMap fun field => fields.filter (·.1 = field)

-- The operation block with the values that the columns of the root give; fields may be added.
def overrideOperation (root : Row) (failed : List String)
    (fields : List (OperationField × String)) : List (OperationField × String) :=
  inOrder ((root.table.columnsWith .operation).foldl (fun fields c =>
    match OperationField.ofTag? c.id, root.code c.id with
    | some field, some code => if c.id ∈ failed then fields else setField field code fields
    | _, _ => fields) fields)

open Xml in
def resultElement (fields : Fields) : Element :=
  .branch Tag.result (fields.map fun f => .leaf f.1 f.2)

open Xml in
def toElement (m : Message) : Element :=
  .branch Tag.message [
    .branch Tag.header (m.header.map fun f => .leaf f.1.tag f.2),
    .branch Tag.payload (
      .branch Tag.operation (m.operation.map fun f => .leaf f.1.tag f.2) ::
      (m.dataset.map fun results => Element.branch Tag.dataset (results.map resultElement)).toList)]

-- The document that is sent.
def document (m : Message) : String :=
  m.toElement.document

end Message

end ReportExchange
