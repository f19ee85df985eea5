import ReportExchange.Amendment.Difference
import ReportExchange.CommandLine.Arguments
import ReportExchange.CommandLine.Grid
import ReportExchange.CommandLine.Trouble
import ReportExchange.Lifecycle.Action
import ReportExchange.Report.Export
import ReportExchange.Store.DataFile

namespace ReportExchange

-- What a command leaves behind.
structure Answer where
  exitCode : Nat := 0
  output   : String := ""
  errors   : String := ""
  written  : List (String × String) := []

namespace Answer

def failure (t : Trouble) : Answer :=
  { exitCode := t.exitCode, errors := t.text }

-- Writes a document to a path, or to what the device there stands for.
def write (a : Answer) (path document : String) : Answer :=
  match Device.at? path with
  | some .void   => a
  | some .output => { a with output := a.output ++ document }
  | some .errors => { a with errors := a.errors ++ document }
  | none         => { a with written := a.written ++ [(path, document)] }

def report (a : Answer) (s : String) : Answer :=
  { a with errors := a.errors ++ s }

end Answer

namespace CommandLine

def yesNo (b : Bool) : String :=
  if b then "yes" else "-"

-- A text of at most `max` characters; a longer one ends in three points.
def shortened (max : Nat) (s : String) : String :=
  if s.length ≤ max then s else String.ofList (s.toList.take (max - 3)) ++ "..."

-- The words for what a status permits, with the tests behind them.
def capabilities : List (String × (Status → Bool)) :=
  [("editable", Status.isEditable), ("send", Status.canBeSent),
   ("make editable", Status.canBeMadeEditable), ("reject", Status.canBeRejected),
   ("submit", Status.canBeSubmitted), ("amend", Status.canBeAmended), ("ack", Status.canGetAck),
   ("refresh", Status.canBeRefreshed), ("remote", Status.existsRemotely)]

def statusDatum (s : Status) : Datum :=
  .record [
    ("failed_version", .ofOption (s.failedVersion.map (·.name))),
    ("permits", .record (Index.ofList (capabilities.map fun c => (c.1, Datum.flag (c.2 s))))),
    ("status", .text s.name)]

def statusRow (s : Status) : List String :=
  [s.name, (s.failedVersion.map (·.name)).getD ""] ++ capabilities.map fun c => yesNo (c.2 s)

def showStatus (status : Option Status) (json : Bool) : Answer :=
  let statuses := match status with
    | some s => [s]
    | none => Status.all
  if json then { output := Json.pretty (.list (statuses.map statusDatum)) ++ "\n" }
  else
    let header := ["Status", "Failed as"] ++ capabilities.map (·.1)
    { output := Grid.render header (statuses.map statusRow) ++ "\n" }

def loadConfiguration (files : Files) (path : String) :
    Except Trouble (Configuration × Catalog) := do
  let config ← match (files path).text with
    | .error reason => .error (Trouble.badConfiguration path (.unreadable path reason))
    | .ok text =>
      match Configuration.ofToml text with
      | .error e => .error (Trouble.badConfiguration path e)
      | .ok config => .ok config
  match config.build with
  | .error e => .error (Trouble.badConfiguration path e)
  | .ok catalog => .ok (config, catalog)

def tableFor (catalog : Catalog) (name : String) : Except Trouble Table :=
  match catalog.table? name with
  | some t => .ok t
  | none => .error (Trouble.unknownTable name (catalog.tables.map (·.name)))

def existing (files : Files) (path : String) : Except Trouble Place :=
  if (files path).exists? then .ok (files path) else .error (Trouble.fileNotFound path)

def catalogRow (t : Table) : List String :=
  [t.name, toString t.columns.length,
   toString (t.columnsWith .record).length,
   toString (t.columnsWith .header).length,
   toString (t.columnsWith .operation).length,
   yesNo t.traversable, yesNo t.generatesRecord,
   ", ".intercalate (t.directParents.map (·.parent))]

def checkConfig (files : Files) (path : String) : Except Trouble Answer := do
  let (config, catalog) ← loadConfiguration files path
  let fields := HeaderField.all.filterMap fun f =>
    (config.sender.value f).map fun v => "  " ++ f.tag ++ " = " ++ v ++ "\n"
  let composite := match config.composite with
    | some c => "  composite " ++ c.tag ++ " -> " ++ c.column ++ "\n"
    | none => ""
  let grid := Grid.render
    ["Schema", "Columns", "Record", "Header", "Operation", "Traverse", "Emits", "Parents"]
    (catalog.tables.map catalogRow)
  let output :=
    "Configuration OK: " ++ path ++ "\n" ++ String.join fields ++ composite ++ "\n" ++ grid ++ "\n"
  return { output }

def loadStore (catalog : Catalog) (path : String) (place : Place) : Except Trouble Store :=
  let failed (reason : String) := Trouble.plain ("Failed to load data file: " ++ path ++ ": " ++ reason)
  match place.text with
  | .error reason => .error (failed ((StoreError.unreadable reason).message ++ ": " ++ reason))
  | .ok text =>
    match Store.ofJson catalog text with
    | .ok store => .ok store
    | .error .exhausted => .error { exitCode := 101, problem := StoreError.exhausted.message }
    | .error e => .error (failed e.message)

def rootOf (request : ExportRequest) (store : Store) (t : Table) : Except Trouble Row :=
  match store.find? t.name request.rootId with
  | some row => .ok row
  | none => .error {
      problem := "No " ++ request.rootTable ++ " row with id " ++ request.rootId.text
      context := some ("Data file: " ++ request.data) }

def exportSummary (s : Summary) : String :=
  String.join (s.faults.map fun f => "WARNING: column omitted: " ++ f.message ++ "\n") ++
  "Exported " ++ toString s.records ++ " record(s) from " ++ toString s.visited ++
  " row(s), message " ++ s.messageId.text ++ "\n"

-- Exports to a file or, without one, to the output.
def exportReport (files : Files) (stamp : Stamp) (request : ExportRequest) :
    Except Trouble Answer := do
  let action := Action.send request.op
  if !request.status.permits action then
    throw {
      problem := "Cannot " ++ action.text ++ " a report whose status is " ++ request.status.name
      suggestions := ["TRY: collecta status <STATUS> shows the permitted actions"] }
  let (config, catalog) ← loadConfiguration files request.config
  let store ← loadStore catalog request.data (← existing files request.data)
  let root ← rootOf request store (← tableFor catalog request.rootTable)
  let operation : Operation := ⟨request.op, request.dataCollection, request.comment⟩
  match request.out.bind fun path => (files.refusal path).map fun reason => (path, reason) with
  | some (path, reason) =>
    throw (Trouble.plain ("Failed to create output file: " ++ path ++ ": " ++ reason))
  | none =>
    match ReportExchange.exportReport ⟨catalog, store⟩ config.sender stamp root operation with
    | .error e => throw (Trouble.plain e.message)
    | .ok exported =>
      let answer : Answer := match request.out with
        | some path => ({} : Answer).write path exported.document
        | none      => { output := exported.document ++ "\n" }
      return answer.report (exportSummary exported.summary)

def headerLine (header : HeaderField → Option String) : Option String :=
  let entries := HeaderField.all.filterMap fun f => (header f).map fun v => (f.tag, Datum.text v)
  if entries.isEmpty then none else some (Json.line (.record (Index.ofList entries)) ++ "\n")

-- Prints the rows of a message as they come, up to its end or to an error. The header goes before
-- the first line that is printed once some of it has been read.
def printRows (assembler : Assembler Row Row) (file : String) :
    Nat → Bool → String → Parser Row → Answer
  | 0, _, output, _ => { output }
  | fuel + 1, wantsHeader, output, p =>
    let (result, p) := p.next assembler
    let line := if wantsHeader then headerLine p.intake.header else none
    let output := output ++ line.getD ""
    match result with
    | .ok none => { output }
    | .ok (some row) =>
      printRows assembler file fuel (wantsHeader && line.isNone)
        (output ++ Json.line row.toRecord.toDatum ++ "\n") p
    | .error e =>
      { exitCode := 1, output, errors := (Trouble.unreadableMessage file p.records e).text }

-- Opens a document. A directory can be opened as well, and fails when it is read.
def openDocument (files : Files) (path : String) : Except Trouble (List Xml.Reading) := do
  match ← existing files path with
  | .file content => return Xml.readings content
  | .directory    => return Xml.noReadings Place.directoryReason
  | place         => throw (Trouble.plain ("Failed to open: " ++ path ++ ": " ++ place.refusalText))

def parse (files : Files) (file config table : String) (header : Bool) : Except Trouble Answer := do
  let (config, catalog) ← loadConfiguration files config
  let t ← tableFor catalog table
  let p : Parser Row := Parser.ofReadings (← openDocument files file)
  return printRows (rowAssembler t config.composite) file (p.readings.length + 2) header "" p

def comparisonRow (c : Comparison) : List String :=
  [c.rowId.getD "", (c.amendment.map (·.name)).getD "", c.version.getD "", yesNo c.nullified,
   shortened 60 (String.join (c.fragments.map Fragment.render))]

def compare (files : Files) (old new : String) (status : Status) (json : Bool) :
    Except Trouble Answer := do
  match status.ensurePermitted .compare with
  | .error refusal =>
    throw {
      problem := refusal.message
      context := some ("Comparing " ++ new ++ " against " ++ old)
      suggestions := ["TRY: collecta status accepted shows the permitted actions"] }
  | .ok () => pure ()
  let oldReadings ← openDocument files old
  let newReadings ← openDocument files new
  match Difference.ofReadings oldReadings newReadings with
  | .error e =>
    throw {
      problem := "Cannot compare datasets: " ++ e.message
      suggestions := [
        "TRY: Every result must carry a recordId",
        "TRY: Inspect both files: collecta parse " ++ new ++ " --table <TABLE>"] }
  | .ok amendments =>
    if json then
      return { output := Json.pretty (.list (amendments.map Comparison.toDatum)) ++ "\n" }
    else if amendments.isEmpty then return { output := "No differences\n" }
    else
      let header := ["Record", "Amendment", "Version", "Nullified", "Fields"]
      return { output := Grid.render header (amendments.map comparisonRow) ++ "\n" }

def answer (result : Except Trouble Answer) : Answer :=
  match result with
  | .ok a => a
  | .error t => .failure t

def run (files : Files) (stamp : Stamp) : Command → Answer
  | .exportReport request => answer (exportReport files stamp request)
  | .parse file config table header => answer (parse files file config table header)
  | .compare old new status json => answer (compare files old new status json)
  | .status status json => showStatus status json
  | .checkConfig config => answer (checkConfig files config)

def versionText : String := "collecta 0.1.0\n"

-- The answer to a command line.
def serve (files : Files) (stamp : Stamp) : Request → Answer
  | .run command => run files stamp command
  | .version     => { output := versionText }
  | .help text   => { output := text }
  | .misuse      => { exitCode := 2 }

end CommandLine

end ReportExchange
