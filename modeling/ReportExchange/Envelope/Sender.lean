import ReportExchange.Calendar
import ReportExchange.Envelope.Field
import ReportExchange.Identity

namespace ReportExchange

open Text

inductive SenderFault
  | unknown (word : UnknownWord)
  | generated (field : HeaderField)
  | missing (field : HeaderField)
deriving DecidableEq, Repr

namespace SenderFault

def message : SenderFault → String
  | unknown word    => word.message
  | generated field =>
    "Header field '" ++ field.tag ++ "' is generated per message and cannot be configured"
  | missing field   => "Header field '" ++ field.tag ++ "' must be configured"

end SenderFault

structure Sender where
  value : HeaderField → Option String := fun _ => none

-- What makes one message different from the next: its identity, and its time in seconds since 1970.
structure Stamp where
  id      : MessageId
  created : Int
deriving DecidableEq, Repr

namespace Sender

def protocolVersion : String := "1.0"

def named (id org : String) : Sender where
  value
    | .senderId  => some id
    | .senderOrg => some org
    | _ => none

def set (s : Sender) (field : HeaderField) (value : String) : Except SenderFault Sender :=
  if field.isGenerated then .error (.generated field)
  else .ok ⟨fun f => if f = field then some value else s.value f⟩

-- Sets a field given by its tag.
def setTag (s : Sender) (tag value : String) : Except SenderFault Sender :=
  match HeaderField.read tag with
  | .ok field   => s.set field value
  | .error word => .error (.unknown word)

-- A sender from its table of tags; the first bad entry decides.
def ofEntries (entries : List (String × String)) : Except SenderFault Sender :=
  entries.foldlM (fun s (tag, value) => s.setTag tag value) {}

-- The fields that have to be configured: no message generates them, and they have no default.
def required : List HeaderField :=
  HeaderField.all.filter fun f => !f.isGenerated && f ≠ .protocolVersion

def isStated (s : Sender) (field : HeaderField) : Bool :=
  match s.value field with
  | some v => !allBlank v
  | none   => false

def validate (s : Sender) : Except SenderFault Unit :=
  match required.find? (!s.isStated ·) with
  | some field => .error (.missing field)
  | none       => .ok ()

-- The header of one message, in the order in which it is written.
def header (s : Sender) (stamp : Stamp) : List (HeaderField × String) :=
  HeaderField.all.map fun field =>
    (field, match field with
      | .messageId       => stamp.id.text
      | .created         => Calendar.utc stamp.created
      | .protocolVersion => (s.value field).getD protocolVersion
      | _                => (s.value field).getD "")

end Sender

end ReportExchange
