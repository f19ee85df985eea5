import ReportExchange.Text.Blank
import ReportExchange.Text.Case

namespace ReportExchange

open Text

inductive Status
  | draft
  | locallyValidated
  | uploaded
  | uploadFailed
  | processing
  | valid
  | validWithWarnings
  | rejectedEditable
  | rejected
  | submissionSent
  | submissionFailed
  | submitted
  | rejectionSent
  | rejectionFailed
  | accepted
  | deleted
  | other
deriving DecidableEq, Repr

-- The statuses that the authority reports.
inductive RemoteStatus
  | acceptedDwh
  | deleted
  | other
  | processing
  | rejected
  | rejectedEditable
  | submitted
  | valid
  | validWithWarnings
deriving DecidableEq, Repr

inductive Status.Unreadable
  | missingRemote
  | unknownRemote (text : String)
  | unknown (text : String)
deriving DecidableEq, Repr

namespace Status.Unreadable

def message : Status.Unreadable → String
  | missingRemote      => "Missing remote status"
  | unknownRemote text => "Unknown remote status: '" ++ text ++ "'"
  | unknown text       => "Unknown dataset status: '" ++ text ++ "'"

end Status.Unreadable

namespace RemoteStatus

def all : List RemoteStatus :=
  [acceptedDwh, deleted, other, processing, rejected, rejectedEditable, submitted, valid,
   validWithWarnings]

def name : RemoteStatus → String
  | acceptedDwh       => "ACCEPTED_DWH"
  | deleted           => "DELETED"
  | other             => "OTHER"
  | processing        => "PROCESSING"
  | rejected          => "REJECTED"
  | rejectedEditable  => "REJECTED_EDITABLE"
  | submitted         => "SUBMITTED"
  | valid             => "VALID"
  | validWithWarnings => "VALID_WITH_WARNINGS"

def ofName? (name : String) : Option RemoteStatus :=
  all.find? (·.name = name)

-- Reads the authority's word for a status; only blanks around it are forgiven.
def read (text : String) : Except Status.Unreadable RemoteStatus :=
  if trim text = "" then .error .missingRemote
  else match ofName? (trim text) with
    | some r => .ok r
    | none   => .error (.unknownRemote (trim text))

end RemoteStatus

namespace Status

def all : List Status :=
  [draft, locallyValidated, uploaded, uploadFailed, processing, valid, validWithWarnings,
   rejectedEditable, rejected, submissionSent, submissionFailed, submitted, rejectionSent,
   rejectionFailed, accepted, deleted, other]

def name : Status → String
  | draft             => "DRAFT"
  | locallyValidated  => "LOCALLY_VALIDATED"
  | uploaded          => "UPLOADED"
  | uploadFailed      => "UPLOAD_FAILED"
  | processing        => "PROCESSING"
  | valid             => "VALID"
  | validWithWarnings => "VALID_WITH_WARNINGS"
  | rejectedEditable  => "REJECTED_EDITABLE"
  | rejected          => "REJECTED"
  | submissionSent    => "SUBMISSION_SENT"
  | submissionFailed  => "SUBMISSION_FAILED"
  | submitted         => "SUBMITTED"
  | rejectionSent     => "REJECTION_SENT"
  | rejectionFailed   => "REJECTION_FAILED"
  | accepted          => "ACCEPTED"
  | deleted           => "DELETED"
  | other             => "OTHER"

-- Hyphens and spaces may stand for the underscores of a name.
def underscored (c : Char) : Char :=
  if c = '-' ∨ c = ' ' then '_' else c

-- Reads a status in any letter case.
def read (text : String) : Except Unreadable Status :=
  let wanted := String.ofList ((capitalForm (trim text)).toList.map underscored)
  match all.find? (·.name = wanted) with
  | some s => .ok s
  | none   => .error (.unknown text)

def isEditable : Status → Bool
  | draft | locallyValidated | uploadFailed => true
  | _ => false

def canBeSent : Status → Bool
  | draft | locallyValidated | uploadFailed => true
  | _ => false

def canBeMadeEditable : Status → Bool
  | valid | validWithWarnings | rejectedEditable | rejected | deleted => true
  | _ => false

def canBeRejected : Status → Bool
  | valid | validWithWarnings | rejectionFailed => true
  | _ => false

def canBeSubmitted : Status → Bool
  | valid | validWithWarnings | submissionFailed => true
  | _ => false

def canBeAmended : Status → Bool
  | accepted => true
  | _ => false

-- A message is under way and its acknowledgement may be asked for.
def canGetAck : Status → Bool
  | uploaded | submissionSent | rejectionSent => true
  | _ => false

def existsRemotely : Status → Bool
  | processing | valid | validWithWarnings | rejectedEditable | rejected | submissionSent
  | submissionFailed | submitted | rejectionSent | rejectionFailed | accepted | other => true
  | _ => false

def canBeRefreshed (s : Status) : Bool :=
  s.existsRemotely || s = uploaded

-- Where a message that could not be delivered leaves a report that was on its way.
def failedVersion : Status → Option Status
  | uploaded       => some uploadFailed
  | submissionSent => some submissionFailed
  | rejectionSent  => some rejectionFailed
  | _ => none

def ofRemote : RemoteStatus → Status
  | .acceptedDwh       => accepted
  | .deleted           => deleted
  | .other             => other
  | .processing        => processing
  | .rejected          => rejected
  | .rejectedEditable  => rejectedEditable
  | .submitted         => submitted
  | .valid             => valid
  | .validWithWarnings => validWithWarnings

def ofRemoteCode : Option String → Except Unreadable Status
  | none      => .error .missingRemote
  | some code => (RemoteStatus.read code).map ofRemote

end Status

end ReportExchange
