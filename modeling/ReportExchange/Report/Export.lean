import ReportExchange.Report.Message

namespace ReportExchange

inductive ExportError
  | sender (cause : SenderFault)
  | catalog (cause : CatalogError)
  | writing (reason : String)
  | flushing (reason : String)
deriving DecidableEq, Repr

namespace ExportError

def message : ExportError → String
  | sender cause    => cause.message
  | catalog cause   => cause.message
  | writing reason  => "XML write failed: I/O error: " ++ reason
  | flushing reason => "Output write failed: " ++ reason

end ExportError

-- What an export went through.
structure Summary where
  messageId : MessageId
  records   : Nat
  visited   : Nat
  fetches   : Nat
  faults    : List CellFault

-- Where a document is written to, as far as it can fail.
structure Sink where
  -- The number of bytes that it takes, with what it says to more.
  room    : Option (Nat × String) := none
  failure : Option String := none

namespace Sink

def accept (s : Sink) (document : String) : Except ExportError Unit :=
  match s.room.filter (·.1 < document.utf8ByteSize) with
  | some (_, reason) => .error (.writing reason)
  | none =>
    match s.failure with
    | some reason => .error (.flushing reason)
    | none        => .ok ()

end Sink

-- What an export writes, and what it went through.
structure Exported where
  message : Message
  summary : Summary

namespace Exported

def document (e : Exported) : String :=
  e.message.document

end Exported

-- The message for a report. The sender is checked first; the rows below the root are read only if
-- the operation carries a dataset.
def exportReport (a : Archive) (sender : Sender) (stamp : Stamp) (root : Row) (op : Operation) :
    Except ExportError Exported :=
  match sender.validate with
  | .error cause => .error (.sender cause)
  | .ok () =>
    let ((root, failed), w) := Walk.refresh a {} root
    let header := Message.overrideHeader root failed (sender.header stamp)
    let operation := Message.overrideOperation root failed op.fields
    let exported (dataset : Option (List Fields)) (w : Walk) : Exported :=
      { message := { header, operation, dataset }
        summary := {
          messageId := stamp.id
          records   := w.results.length
          visited   := w.visited
          fetches   := w.cache.fetches
          faults    := w.faults } }
    if op.opType.carriesDataset then
      match w.through a root failed with
      | .ok w        => .ok (exported (some w.results) w)
      | .error cause => .error (.catalog cause)
    else .ok (exported none w)

-- The export into a sink, which may refuse what is written to it.
def exportInto (a : Archive) (sender : Sender) (stamp : Stamp) (root : Row) (op : Operation)
    (sink : Sink) : Except ExportError Exported := do
  let exported ← exportReport a sender stamp root op
  sink.accept exported.document
  return exported

end ReportExchange
