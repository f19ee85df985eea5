import ReportExchange.Envelope.OperationType
import ReportExchange.Text.Digit

namespace ReportExchange

open Text

namespace Tag

def message   : String := "message"
def header    : String := "header"
def payload   : String := "payload"
def operation : String := "operation"
def dataset   : String := "dataset"
def result    : String := "result"

def rowId          : String := "recordId"
def nullified      : String := "nullified"
def amendmentType  : String := "amType"
def datasetVersion : String := "datasetVersion"

end Tag

-- The fields of an envelope and its codes are closed sets: any other name is refused.
inductive UnknownWord
  | headerField (text : String)
  | operationField (text : String)
  | operationType (text : String)
  | amendmentType (text : String)
deriving DecidableEq, Repr

namespace UnknownWord

def message : UnknownWord → String
  | headerField text    => "Unknown header field: '" ++ text ++ "'"
  | operationField text => "Unknown operation field: '" ++ text ++ "'"
  | operationType text  => "Unknown operation type: '" ++ text ++ "'"
  | amendmentType text  => "Unknown amendment type code: '" ++ text ++ "'"

end UnknownWord

inductive HeaderField
  | messageId
  | senderId
  | senderOrg
  | created
  | protocolVersion
deriving DecidableEq, Repr

namespace HeaderField

-- In the order in which a header is written.
def all : List HeaderField :=
  [messageId, senderId, senderOrg, created, protocolVersion]

def tag : HeaderField → String
  | messageId       => "messageId"
  | senderId        => "senderId"
  | senderOrg       => "senderOrg"
  | created         => "created"
  | protocolVersion => "protocolVersion"

-- The fields that every message gets anew, so that they cannot be configured.
def isGenerated : HeaderField → Bool
  | messageId | created => true
  | _ => false

def ofTag? (tag : String) : Option HeaderField :=
  all.find? (·.tag = tag)

def read (tag : String) : Except UnknownWord HeaderField :=
  match ofTag? tag with
  | some f => .ok f
  | none   => .error (.headerField tag)

end HeaderField

inductive OperationField
  | opType
  | dataCollection
  | comment
deriving DecidableEq, Repr

namespace OperationField

-- In the order in which an operation block is written.
def all : List OperationField :=
  [opType, dataCollection, comment]

def tag : OperationField → String
  | opType         => "opType"
  | dataCollection => "dcCode"
  | comment        => "opCom"

def ofTag? (tag : String) : Option OperationField :=
  all.find? (·.tag = tag)

def read (tag : String) : Except UnknownWord OperationField :=
  match ofTag? tag with
  | some f => .ok f
  | none   => .error (.operationField tag)

end OperationField

namespace OperationType

def read (text : String) : Except UnknownWord OperationType :=
  match read? text with
  | some op => .ok op
  | none    => .error (.operationType text)

end OperationType

-- How a row differs between two versions of a dataset.
inductive AmendmentType
  | added
  | modified
  | deleted
deriving DecidableEq, Repr

namespace AmendmentType

def all : List AmendmentType :=
  [added, modified, deleted]

def code : AmendmentType → String
  | added    => "A"
  | modified => "M"
  | deleted  => "D"

def name : AmendmentType → String
  | added    => "ADDED"
  | modified => "MODIFIED"
  | deleted  => "DELETED"

-- Reads a code; a blank one states nothing.
def readCode (text : String) : Except UnknownWord (Option AmendmentType) :=
  if trim text = "" then .ok none
  else match all.find? (·.code = trim text) with
    | some a => .ok (some a)
    | none   => .error (.amendmentType (trim text))

end AmendmentType

-- The last two decimal digits of a version, where a point stands before them.
def versionSuffix (text : String) : Option String :=
  match (trimmed text.toList).reverse with
  | d₂ :: d₁ :: '.' :: _ =>
    if isDecimalDigit d₁ && isDecimalDigit d₂ then some (String.ofList [d₁, d₂]) else none
  | _ => none

end ReportExchange
