import ReportExchange.Envelope.Field
import ReportExchange.Row.Basic
import ReportExchange.Xml.Reading

namespace ReportExchange

-- A field that does not fit into the record it belongs to.
inductive FieldFault
  | undeclared (cause : Row.Undeclared)
  | invalidValue (tag value : String)
  | word (cause : UnknownWord)
deriving DecidableEq, Repr

namespace FieldFault

def message : FieldFault → String
  | undeclared cause       => cause.message
  | invalidValue tag value => "Invalid value '" ++ value ++ "' for <" ++ tag ++ ">"
  | word cause             => cause.message

end FieldFault

inductive IntakeFault
  | xml (fault : Xml.Fault)
  | unexpectedTag (tag : String)
  | unexpectedText
  | unexpectedEnd (openTag : String)
  | field (cause : FieldFault)
  | missingRowId
  | duplicateRowId (id : String)
deriving DecidableEq, Repr

-- A failure to read a message, at a byte offset.
structure IntakeError where
  position : Nat
  fault    : IntakeFault
deriving DecidableEq, Repr

namespace IntakeError

def message (e : IntakeError) : String :=
  let place := toString e.position
  match e.fault with
  | .xml .encoding    => "Invalid UTF-8 at byte " ++ place
  | .xml fault        => "Malformed XML at byte " ++ place ++ ": " ++ fault.message
  | .unexpectedTag tag => "Unexpected <" ++ tag ++ "> at byte " ++ place
  | .unexpectedText   => "Unexpected text at byte " ++ place
  | .unexpectedEnd openTag => "Document ended inside <" ++ openTag ++ "> at byte " ++ place
  | .field cause      => cause.message ++ " (byte " ++ place ++ ")"
  | .missingRowId     => "Record at byte " ++ place ++ " has no row id"
  | .duplicateRowId id => "Row id '" ++ id ++ "' appears twice (byte " ++ place ++ ")"

end IntakeError

-- Makes a record out of the fields of one result, given in their order.
structure Assembler (Draft Record : Type) where
  blank  : Draft
  field  : Draft → String → String → Except FieldFault Draft
  finish : Draft → Record

end ReportExchange
