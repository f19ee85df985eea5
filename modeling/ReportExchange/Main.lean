import ReportExchange.CommandLine.Run
import Std.Time.DateTime.Timestamp

namespace ReportExchange.Disk

def placeOf (e : IO.Error) : Place :=
  match e with
  | .noFileOrDirectory _ _ _ => .missing
  | .invalidArgument _ _ _ => .tooLong
  | .inappropriateType _ code _ => if code = 21 then .directory else .beyondFile
  | _ => .locked

-- What stands at a path that is to be read.
def content (path : String) : IO Place := do
  match ← (IO.FS.readBinFile path).toBaseIO with
  | .ok bytes => return .file bytes.toList
  | .error e  => return placeOf e

-- What stands at a path that is to be written; nothing is read from there.
def target (path : String) : IO Place := do
  match ← (IO.FS.Handle.mk path .readWrite).toBaseIO with
  | .ok _    => return .file []
  | .error e => return placeOf e

def targets (command : Command) : List String :=
  match command.output with
  | some path => [path, FilePath.container path]
  | none      => []

-- The files that a command is about.
def files (command : Command) : IO Files := do
  let read ← command.inputs.mapM fun path => do return (path, ← content path)
  let written ← (targets command).mapM fun path => do return (path, ← target path)
  let known := read ++ written
  return fun path => ((known.find? (·.1 = path)).map (·.2)).getD .missing

end ReportExchange.Disk

namespace ReportExchange

def newStamp : IO Stamp := do
  let bytes ← IO.getRandomBytes 16
  let now ← Std.Time.Timestamp.now
  return ⟨.ofRandom bytes.toList, now.toSecondsSinceUnixEpoch.toInt⟩

-- The variables that the program looks at.
def variableNames : List String :=
  [CommandLine.configVariable, "NO_COLOR", "CLICOLOR_FORCE"]

def environment : IO CommandLine.Environment := do
  let known ← variableNames.mapM fun name => do return (name, ← IO.getEnv name)
  return fun name => (known.find? (·.1 = name)).bind (·.2)

def filesFor (request : Request) : IO Files :=
  match request with
  | .run command => Disk.files command
  | _ => return fun _ => .missing

def carryOut (answer : Answer) : IO UInt32 := do
  for (path, document) in answer.written do
    IO.FS.writeFile path document
  IO.print answer.output
  IO.eprint answer.errors
  return UInt32.ofNat answer.exitCode

end ReportExchange

open ReportExchange in
-- Answers one command line.
def main (args : List String) : IO UInt32 := do
  let request := Arguments.read (← environment) args
  carryOut (CommandLine.serve (← filesFor request) (← newStamp) request)
