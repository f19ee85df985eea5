import ReportExchange.Lifecycle.Status

namespace ReportExchange

open Text

inductive OperationType
  | insert
  | replace
  | reject
  | submit
deriving DecidableEq, Repr

namespace OperationType

def all : List OperationType :=
  [insert, replace, reject, submit]

def name : OperationType → String
  | insert  => "Insert"
  | replace => "Replace"
  | reject  => "Reject"
  | submit  => "Submit"

-- Reads an operation type in any letter case.
def read? (text : String) : Option OperationType :=
  all.find? fun op => smallForm op.name = smallForm (trim text)

-- The status of a report whose message has been accepted for delivery.
def inFlight : OperationType → Status
  | insert | replace => .uploaded
  | submit           => .submissionSent
  | reject           => .rejectionSent

def carriesDataset : OperationType → Bool
  | insert | replace => true
  | reject | submit  => false

end OperationType

end ReportExchange
