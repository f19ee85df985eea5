import ReportExchange.Datum.Basic
import ReportExchange.Envelope.OperationType
import ReportExchange.Identity
import ReportExchange.Lifecycle.Status

namespace ReportExchange

open Datum

inductive TransportError
  | noConnection
  | unauthorized
  | forbidden
  | sendFailed (detail : String)
  | general (detail : String)
deriving DecidableEq, Repr

namespace TransportError

def message : TransportError → String
  | noConnection      => "No connection to the collection authority"
  | unauthorized      => "Credentials rejected by the collection authority"
  | forbidden         => "Account is not allowed to perform this operation"
  | sendFailed detail => "Message could not be sent: " ++ detail
  | general detail    => "Transport error: " ++ detail

def kind : TransportError → String
  | noConnection => "no_connection"
  | unauthorized => "unauthorized"
  | forbidden    => "forbidden"
  | sendFailed _ => "send_failed"
  | general _    => "general"

def toDatum (e : TransportError) : Datum :=
  let detail := match e with
    | sendFailed detail | general detail => [("detail", Datum.text detail)]
    | _ => []
  .record (("kind", .text e.kind) :: detail)

-- An error without detail may still have a null in its place.
def ofParts? (kind : String) (detail : Option Datum) : Option TransportError :=
  match kind with
  | "no_connection" => plain noConnection
  | "unauthorized"  => plain unauthorized
  | "forbidden"     => plain forbidden
  | "send_failed"   => (detail.bind text?).map sendFailed
  | "general"       => (detail.bind text?).map general
  | _ => none
where
  plain (e : TransportError) : Option TransportError :=
    match detail with
    | none | some .null => some e
    | _ => none

def ofDatum? (d : Datum) : Option TransportError := do
  let m ← d.members? .json ["kind", "detail"]
  let kind ← m.required "kind" text?
  if m.byPlace && (m.find "detail").isNone then none
  else ofParts? kind (m.find "detail")

end TransportError

-- A dataset as the authority has it.
structure RemoteDataset where
  datasetId : String
  status    : RemoteStatus
deriving DecidableEq, Repr

namespace RemoteStatus

def ofDatum? (d : Datum) : Option RemoteStatus :=
  (d.word? .json).bind ofName?

end RemoteStatus

namespace RemoteDataset

def localStatus (d : RemoteDataset) : Status :=
  .ofRemote d.status

def toDatum (d : RemoteDataset) : Datum :=
  .record [("dataset_id", .text d.datasetId), ("status", .text d.status.name)]

def ofDatum? (d : Datum) : Option RemoteDataset := do
  let m ← d.members? .json ["dataset_id", "status"]
  return {
    datasetId := ← m.required "dataset_id" text?
    status    := ← m.required "status" RemoteStatus.ofDatum? }

end RemoteDataset

-- The authority's acknowledgement of a message. It is ready once it has a dataset status.
structure Acknowledgement where
  statusCodes   : List String
  datasetId     : Option String
  datasetStatus : Option RemoteStatus
  log           : String
deriving DecidableEq, Repr

namespace Acknowledgement

def isReady (a : Acknowledgement) : Bool :=
  a.datasetStatus.isSome

def toDatum (a : Acknowledgement) : Datum :=
  .record [
    ("status_codes", .list (a.statusCodes.map .text)),
    ("dataset_id", .ofOption a.datasetId),
    ("dataset_status", .ofOption (a.datasetStatus.map (·.name))),
    ("log", .text a.log)]

def ofDatum? (d : Datum) : Option Acknowledgement := do
  let m ← d.members? .json ["status_codes", "dataset_id", "dataset_status", "log"]
  return {
    statusCodes   := ← m.required "status_codes" (each text?)
    datasetId     := ← m.optional "dataset_id" text?
    datasetStatus := ← m.optional "dataset_status" RemoteStatus.ofDatum?
    log           := ← m.required "log" text? }

end Acknowledgement

-- A connection. Its answers may depend on all that it was asked before, which its state holds.
structure Transport (Link : Type) where
  send    : OperationType → String → Link → Except TransportError Acknowledgement × Link
  dataset : String → Link → Except TransportError (Option RemoteDataset) × Link
  ack     : MessageId → Link → Except TransportError Acknowledgement × Link

end ReportExchange
