import ReportExchange.Envelope.OperationType
import ReportExchange.Identity

namespace ReportExchange.CommandLine

-- An option of a command: a flag, or one that takes a value.
structure Switch where
  name         : String
  meaning      : String
  short        : Option Char := none
  takesValue   : Bool := true
  isNeeded     : Bool := false
  preset       : Option String := none
  -- The environment variable that gives the value if no argument does.
  variableName : Option String := none
  accepts      : String → Bool := fun _ => true

-- A place of a command, which a word without a hyphen fills.
structure Slot where
  name     : String
  meaning  : String
  isNeeded : Bool := true
  accepts  : String → Bool := fun _ => true

structure Spec where
  name     : String
  about    : String
  switches : List Switch
  slots    : List Slot := []

-- A path may not be empty.
def isPath (s : String) : Bool :=
  s ≠ ""

def isStatus (s : String) : Bool :=
  (Status.read s).toOption.isSome

def isOperation (s : String) : Bool :=
  (OperationType.read? s).isSome

def isRowId (s : String) : Bool :=
  (RowId.read? s).isSome

def defaultConfig : String := "collecta.toml"

def configVariable : String := "COLLECTA_CONFIG"

namespace Switch

def verbose : Switch :=
  { name := "verbose", meaning := "Show debug logs on stderr", short := some 'v', takesValue := false }

def config : Switch :=
  { name := "config", meaning := "Configuration file", short := some 'c', preset := some defaultConfig,
    variableName := some configVariable, accepts := isPath }

def json : Switch :=
  { name := "json", meaning := "Output as JSON", takesValue := false }

def help : Switch :=
  { name := "help", meaning := "Print help", short := some 'h', takesValue := false }

def version : Switch :=
  { name := "version", meaning := "Print version", short := some 'V', takesValue := false }

end Switch

namespace Spec

def exportReport : Spec where
  name  := "export"
  about := "Export a stored report tree as one wire message"
  switches := [Switch.config, Switch.verbose,
    { name := "data", meaning := "JSON data file holding the stored rows", short := some 'd',
      isNeeded := true, accepts := isPath },
    { name := "root-table", meaning := "Table of the report root", isNeeded := true },
    { name := "root-id", meaning := "Row id of the report root", isNeeded := true, accepts := isRowId },
    { name := "op", meaning := "Operation type: insert, replace, submit, reject",
      preset := some "insert", accepts := isOperation },
    { name := "status", meaning := "Current status of the report; the operation must be permitted",
      preset := some "draft", accepts := isStatus },
    { name := "data-collection", meaning := "Data collection code, unless the root row carries one" },
    { name := "comment", meaning := "Free-text operation comment" },
    { name := "out", meaning := "Output file (stdout when omitted)", short := some 'o',
      accepts := isPath }]

def parse : Spec where
  name  := "parse"
  about := "Parse a wire message into rows of one table"
  switches := [Switch.config, Switch.verbose,
    { name := "table", meaning := "Table the records are read into", short := some 't',
      isNeeded := true },
    { name := "header", meaning := "Print the message header before the rows", takesValue := false }]
  slots := [{ name := "file", meaning := "Wire document to read", accepts := isPath }]

def compare : Spec where
  name  := "compare"
  about := "Compare two dataset documents and list the amendments"
  switches := [
    { name := "status"
      meaning := "Status of the previously accepted dataset; only accepted ones can be amended"
      preset := some "accepted", accepts := isStatus },
    Switch.verbose, Switch.json]
  slots := [
    { name := "old", meaning := "Previously accepted dataset", accepts := isPath },
    { name := "new", meaning := "Amended dataset", accepts := isPath }]

def status : Spec where
  name  := "status"
  about := "Show which actions a dataset status permits"
  switches := [Switch.json, Switch.verbose]
  slots := [
    { name := "status", meaning := "Status to inspect (all statuses when omitted)", isNeeded := false,
      accepts := isStatus }]

def checkConfig : Spec where
  name     := "check-config"
  about    := "Validate a configuration file"
  switches := [Switch.config, Switch.verbose]

def all : List Spec :=
  [exportReport, parse, compare, status, checkConfig]

def find? (name : String) : Option Spec :=
  all.find? (·.name = name)

end Spec

end ReportExchange.CommandLine
