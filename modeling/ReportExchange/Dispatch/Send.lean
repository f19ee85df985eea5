import ReportExchange.Dispatch.Transport
import ReportExchange.Lifecycle.Action
import ReportExchange.Report.Export

namespace ReportExchange

inductive SendError
  | notPermitted (status : Status) (action : Action)
  | notOverwritable (remote : RemoteStatus)
  | missingDatasetId
  | export (cause : ExportError)
  | formulas (faults : List CellFault)
  | transport (cause : TransportError)
  | workerDied
deriving DecidableEq, Repr

namespace SendError

def message : SendError → String
  | notPermitted status action =>
    "Action '" ++ action.text ++ "' is not permitted while the report is " ++ status.name
  | notOverwritable remote => "Remote dataset is " ++ remote.name ++ " and cannot be overwritten"
  | missingDatasetId => "Report has no remote dataset id"
  | .export cause => "Export failed: " ++ cause.message
  | formulas faults => toString faults.length ++ " formula column(s) could not be resolved"
  | transport cause => cause.message
  | workerDied => "Send worker panicked"

def reachedTransport : SendError → Bool
  | transport _ => true
  | _ => false

-- The status of a report after a failed send: only a failure of the connection moves it.
def statusAfter (e : SendError) (op : OperationType) (current : Status) : Status :=
  if e.reachedTransport then op.inFlight.failedVersion.getD current else current

end SendError

-- A report, as far as sending it is concerned.
structure Report where
  root      : Row
  status    : Status
  datasetId : Option String := none

-- What happens while a report is sent: calls of the connection, and notices to the listener.
inductive SendEvent
  -- The part of the work that is done, in tenths.
  | progress (tenths : Nat)
  | asked (datasetId : String)
  | handed (op : OperationType) (payload : String)
  | completed
  | stopped (error : SendError)

structure Receipt where
  status  : Status
  summary : Summary
  ack     : Acknowledgement
  payload : String

namespace Receipt

def payloadBytes (r : Receipt) : Nat :=
  r.payload.utf8ByteSize

end Receipt

-- Where reports are exported from and sent to.
structure Office (Link : Type) where
  archive   : Archive
  sender    : Sender
  transport : Transport Link

-- A connection in use, with what has happened so far.
structure Line (Link : Type) where
  link   : Link
  events : List SendEvent := []

namespace Office

variable {Link : Type}

abbrev Run (Link : Type) := ExceptT SendError (StateM (Line Link))

def note (e : SendEvent) : Run Link Unit :=
  modify fun line => { line with events := line.events ++ [e] }

def askDataset (o : Office Link) (id : String) : Run Link (Option RemoteDataset) := do
  note (.asked id)
  let line ← get
  let (answer, link) := o.transport.dataset id line.link
  set { line with link }
  match answer with
  | .ok remote   => return remote
  | .error cause => throw (.transport cause)

def handOver (o : Office Link) (op : OperationType) (payload : String) :
    Run Link Acknowledgement := do
  note (.handed op payload)
  let line ← get
  let (answer, link) := o.transport.send op payload line.link
  set { line with link }
  match answer with
  | .ok ack      => return ack
  | .error cause => throw (.transport cause)

def gate (report : Report) (op : OperationType) : Run Link Unit :=
  if report.status.permits (.send op) then return ()
  else throw (.notPermitted report.status (.send op))

def mayOverwrite (remote : RemoteDataset) : Bool :=
  !remote.localStatus.existsRemotely || remote.localStatus.canBeMadeEditable

-- A dataset may replace only one that can be made editable. What carries none acts on the remote
-- dataset, which therefore has to be known.
def checkRemote (o : Office Link) (report : Report) (op : OperationType) : Run Link Unit :=
  match op.carriesDataset, report.datasetId with
  | true, none    => return ()
  | false, none   => throw .missingDatasetId
  | false, some _ => return ()
  | true, some id => do
    match ← o.askDataset id with
    | none => return ()
    | some remote =>
      if mayOverwrite remote then return () else throw (.notOverwritable remote.status)

-- An export without any failed formula.
def exportClean (o : Office Link) (report : Report) (op : Operation) (stamp : Stamp) :
    Except SendError Exported :=
  match exportReport o.archive o.sender stamp report.root op with
  | .error cause => .error (.export cause)
  | .ok exported =>
    if exported.summary.faults.isEmpty then .ok exported
    else .error (.formulas exported.summary.faults)

-- Everything up to the moment when the message leaves.
def prepare (o : Office Link) (report : Report) (op : Operation) (stamp : Stamp) :
    Run Link Exported := do
  gate report op.opType
  note (.progress 1)
  o.checkRemote report op.opType
  note (.progress 3)
  let exported ← liftExcept (o.exportClean report op stamp)
  note (.progress 6)
  return exported
where
  liftExcept (e : Except SendError Exported) : Run Link Exported :=
    match e with
    | .ok exported => return exported
    | .error cause => throw cause

def deliver (o : Office Link) (op : OperationType) (exported : Exported) : Run Link Receipt := do
  let ack ← o.handOver op exported.document
  note (.progress 10)
  return ⟨op.inFlight, exported.summary, ack, exported.document⟩

-- The last notice says how it went.
def announce (result : Except SendError Receipt) : SendEvent :=
  match result with
  | .ok _    => .completed
  | .error e => .stopped e

def send (o : Office Link) (report : Report) (op : Operation) (stamp : Stamp) (line : Line Link) :
    Except SendError Receipt × Line Link :=
  let (result, line) := (do o.deliver op.opType (← o.prepare report op stamp) : Run Link Receipt) line
  (result, { line with events := line.events ++ [announce result] })

-- Sending by a worker of its own, which `dies` when it hands the message over. A worker that is
-- dead says nothing more.
def sendByWorker (o : Office Link) (dies : Bool) (report : Report) (op : Operation) (stamp : Stamp)
    (line : Line Link) : Except SendError Receipt × Line Link :=
  if dies then
    match o.prepare report op stamp line with
    | (.ok _, line)    => (.error .workerDied, line)
    | (.error e, line) => (.error e, { line with events := line.events ++ [.stopped e] })
  else o.send report op stamp line

-- Asks the authority for the status of a report's dataset.
def refresh (o : Office Link) (report : Report) (link : Link) : Except SendError Status × Link :=
  if report.status.permits .refresh then
    match report.datasetId with
    | none => (.error .missingDatasetId, link)
    | some id =>
      match o.transport.dataset id link with
      | (.ok (some remote), link) => (.ok remote.localStatus, link)
      | (.ok none, link)          => (.ok report.status, link)
      | (.error cause, link)      => (.error (.transport cause), link)
  else (.error (.notPermitted report.status .refresh), link)

end Office

-- The status after an acknowledgement. One that is not ready leaves it as it is.
def applyAck (status : Status) (ack : Acknowledgement) : Except SendError Status :=
  if status.permits .getAck then
    match ack.datasetStatus with
    | some remote => .ok (.ofRemote remote)
    | none        => .ok status
  else .error (.notPermitted status .getAck)

namespace Office

variable {Link : Type}

-- Fetches the acknowledgement of a message and applies it.
def fetchAck (o : Office Link) (status : Status) (id : MessageId) (link : Link) :
    Except SendError (Status × Acknowledgement) × Link :=
  if status.permits .getAck then
    match o.transport.ack id link with
    | (.ok ack, link)      => ((applyAck status ack).map fun next => (next, ack), link)
    | (.error cause, link) => (.error (.transport cause), link)
  else (.error (.notPermitted status .getAck), link)

end Office

end ReportExchange
