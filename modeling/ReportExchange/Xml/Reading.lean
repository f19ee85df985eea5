import ReportExchange.Text.Utf8
import ReportExchange.Xml.Escape

namespace ReportExchange.Xml

open Text

-- The kinds of markup that have to be closed.
inductive Markup
  | tag
  | comment
  | cdata
  | doctype
  | instruction
deriving DecidableEq, Repr

namespace Markup

def unclosed : Markup → String
  | tag         => "tag not closed: `>` not found before end of input"
  | comment     => "comment not closed: `-->` not found before end of input"
  | cdata       => "CDATA not closed: `]]>` not found before end of input"
  | doctype     => "DOCTYPE not closed: `>` not found before end of input"
  | instruction =>
    "processing instruction or xml declaration not closed: `?>` not found before end of input"

end Markup

inductive Fault
  | unknownMarkup
  | unclosed (markup : Markup)
  | mismatchedEnd (expected found : String)
  | unmatchedEnd (found : String)
  | doctypeWithoutName
  | undecodable (cause : Utf8Fault)
  | escape (cause : EscapeFault)
  -- A name, or text that is taken literally, is not UTF-8.
  | encoding
  -- The bytes themselves could not be read.
  | unreadable (reason : String)
deriving DecidableEq, Repr

namespace Fault

def message : Fault → String
  | unknownMarkup => "syntax error: unknown or missed symbol in markup"
  | unclosed markup => "syntax error: " ++ markup.unclosed
  | mismatchedEnd expected found =>
    "ill-formed document: expected `</" ++ expected ++ ">`, but `</" ++ found ++ ">` was found"
  | unmatchedEnd found =>
    "ill-formed document: close tag `</" ++ found ++ ">` does not match any open tag"
  | doctypeWithoutName =>
    "ill-formed document: `<!DOCTYPE>` declaration does not contain a name of a document type"
  | undecodable cause => "Malformed UTF-8 input: " ++ cause.message
  | escape cause => cause.message
  | encoding => "invalid UTF-8"
  | unreadable reason => "I/O error: " ++ reason

end Fault

inductive Event
  | opening (name : String)
  | empty (name : String)
  | closing
  -- Text and CDATA, with nothing left to decode.
  | text (value : String)
  | cdata (value : String)
  -- Declarations, comments, processing instructions and document types.
  | aside
  | done
deriving DecidableEq, Repr

-- One event or fault, with the byte offset that it was read from and the one reading came to.
structure Reading where
  start : Nat
  stop  : Nat
  event : Except Fault Event

end ReportExchange.Xml
