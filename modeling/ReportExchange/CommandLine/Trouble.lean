import ReportExchange.CommandLine.Files
import ReportExchange.Configuration
import ReportExchange.Intake.Assembler

namespace ReportExchange

structure Trouble where
  problem     : String
  context     : Option String := none
  suggestions : List String := []
  exitCode    : Nat := 1

namespace Trouble

def text (t : Trouble) : String :=
  "ERROR: " ++ t.problem ++ "\n" ++
  (match t.context with
    | some c => "CONTEXT: " ++ c ++ "\n"
    | none => "") ++
  (if t.suggestions.isEmpty then ""
    else "\n" ++ String.join (t.suggestions.map fun s => "  " ++ s ++ "\n"))

def plain (problem : String) : Trouble where
  problem := problem

def fileNotFound (path : String) : Trouble where
  problem := "File not found: " ++ path
  context := some "The specified file does not exist"
  suggestions := [
    "TRY: Check if the file exists: ls -la " ++ path,
    "TRY: Look for similar files: ls " ++ (FilePath.parent path).getD "."]

def configurationAdvice (path : String) : ConfigurationError → List String
  | .unreadable _ _ => [
    "TRY: Check the path: ls -la " ++ path,
    "TRY: Pass the file explicitly with --config"]
  | .sender _ => [
    "TRY: Set senderId and senderOrg in the [message] table",
    "TRY: Allowed keys: senderId, senderOrg, protocolVersion"]
  | .malformed | .catalog _ => [
    "TRY: Validate the file: collecta check-config --config " ++ path]

def badConfiguration (path : String) (e : ConfigurationError) : Trouble where
  problem     := "Invalid configuration: " ++ e.message
  context     := some ("While loading " ++ path)
  suggestions := configurationAdvice path e

def unknownTable (table : String) (known : List String) : Trouble where
  problem     := "Unknown table: '" ++ table ++ "'"
  context     := some "Tables are declared as [[schemas]] in the configuration file"
  suggestions := ["TRY: Known tables: " ++ ", ".intercalate known]

def unreadableMessage (path : String) (records : Nat) (e : IntakeError) : Trouble where
  problem := "Wire parse error: " ++ e.message
  context := some ("Failed to read " ++ path ++ " at byte " ++ toString e.position ++ " after " ++
    toString records ++ " record(s)")
  suggestions := [
    "TRY: Check that the document is complete (not truncated)",
    "TRY: Records printed before this error are valid"]

end Trouble

end ReportExchange
