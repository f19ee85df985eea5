import ReportExchange.Envelope.OperationType

namespace ReportExchange

inductive Action
  | send (op : OperationType)
  | compare
  | refresh
  | makeEditable
  | getAck
deriving DecidableEq, Repr

namespace Action

def text : Action → String
  | send op      => "send (" ++ op.name ++ ")"
  | compare      => "compare"
  | refresh      => "refresh"
  | makeEditable => "make editable"
  | getAck       => "get acknowledgement"

end Action

namespace Status

def permits (s : Status) : Action → Bool
  | .send .insert | .send .replace => s.canBeSent
  | .send .submit => s.canBeSubmitted
  | .send .reject => s.canBeRejected
  | .compare      => s.canBeAmended
  | .refresh      => s.canBeRefreshed
  | .makeEditable => s.canBeMadeEditable
  | .getAck       => s.canGetAck

-- An action that a status does not permit.
structure Refusal where
  status : Status
  action : Action
deriving DecidableEq, Repr

def Refusal.message (r : Refusal) : String :=
  "Action '" ++ r.action.text ++ "' is not permitted while the dataset is " ++ r.status.name

def ensurePermitted (s : Status) (a : Action) : Except Refusal Unit :=
  if s.permits a then .ok () else .error ⟨s, a⟩

end Status

end ReportExchange
