import ReportExchange.CommandLine.Help

namespace ReportExchange

structure ExportRequest where
  config         : String
  data           : String
  rootTable      : String
  rootId         : RowId
  op             : OperationType
  status         : Status
  dataCollection : Option String
  comment        : Option String
  out            : Option String

inductive Command
  | exportReport (request : ExportRequest)
  | parse (file config table : String) (header : Bool)
  | compare (old new : String) (status : Status) (json : Bool)
  | status (status : Option Status) (json : Bool)
  | checkConfig (config : String)

namespace Command

-- The paths of the files that a command may read.
def inputs : Command → List String
  | .exportReport request => [request.config, request.data]
  | .parse file config _ _ => [config, file]
  | .compare old new _ _ => [old, new]
  | .status _ _ => []
  | .checkConfig config => [config]

-- The path of the file that a command may write.
def output : Command → Option String
  | .exportReport request => request.out
  | _ => none

end Command

-- What a command line asks for. A misuse is answered with the exit code alone.
inductive Request
  | run (command : Command)
  | version
  | help (text : String)
  | misuse

namespace Arguments

open CommandLine

-- What has been given so far.
structure Given where
  values      : List (String × String) := []
  flags       : List String := []
  positionals : List String := []

inductive Outcome
  | given (g : Given)
  | help
  | misuse

namespace Given

def value? (g : Given) (name : String) : Option String :=
  (g.values.find? (·.1 = name)).map (·.2)

def flag (g : Given) (name : String) : Bool :=
  name ∈ g.flags

def has (g : Given) (name : String) : Bool :=
  (g.value? name).isSome || g.flag name

end Given

-- The part before the first equals sign, and the part after it.
def splitEquals (cs : List Char) : List Char × Option (List Char) :=
  match cs.dropWhile (· ≠ '=') with
  | [] => (cs, none)
  | _ :: value => (cs.takeWhile (· ≠ '='), some value)

-- What an argument looks like.
inductive Shape
  | stop
  | long (name : String) (value : Option String)
  | short (letters : List Char)
  | word

def shapeOf (arg : String) : Shape :=
  match arg.toList with
  | ['-', '-'] => .stop
  | '-' :: '-' :: cs =>
    let (name, value) := splitEquals cs
    .long (String.ofList name) (value.map String.ofList)
  | '-' :: c :: cs => .short (c :: cs)
  | _ => .word

-- A value is what does not look like an option; a hyphen alone is one.
def looksLikeValue (arg : String) : Bool :=
  match shapeOf arg with
  | .word => true
  | _ => false

def addFlag (o : Switch) (g : Given) : Option Given :=
  if g.has o.name then none else some { g with flags := o.name :: g.flags }

def addValue (o : Switch) (value : String) (g : Given) : Option Given :=
  if g.has o.name || !o.accepts value then none
  else some { g with values := (o.name, value) :: g.values }

def addWord (spec : Spec) (word : String) (g : Given) : Option Given :=
  match spec.slots[g.positionals.length]? with
  | some slot =>
    if slot.accepts word then some { g with positionals := g.positionals ++ [word] } else none
  | none => none

-- What a group of short options comes to.
inductive Letters
  | done (g : Given)
  -- The last letter takes the next argument as its value.
  | wants (o : Switch) (g : Given)
  | help
  | misuse

def takeLetters (spec : Spec) (g : Given) : List Char → Letters
  | [] => .done g
  | c :: cs =>
    if c = 'h' then .help
    else match spec.switches.find? (·.short = some c) with
      | none => .misuse
      | some o =>
        if o.takesValue then
          match cs with
          | [] => .wants o g
          | '=' :: value => (addValue o (String.ofList value) g).elim .misuse .done
          | value => (addValue o (String.ofList value) g).elim .misuse .done
        else match addFlag o g with
          | some g => takeLetters spec g cs
          | none => .misuse

mutual

-- Goes through the arguments of a command from the left; the first bad one decides.
def scan (spec : Spec) (g : Given) : List String → Outcome
  | [] => .given g
  | arg :: args =>
    match shapeOf arg with
    | .stop => scanWords spec g args
    | .word =>
      match addWord spec arg g with
      | some g => scan spec g args
      | none => .misuse
    | .long name value =>
      if name = "help" && value.isNone then .help
      else match spec.switches.find? (·.name = name) with
        | none => .misuse
        | some o =>
          match o.takesValue, value with
          | false, none =>
            match addFlag o g with
            | some g => scan spec g args
            | none => .misuse
          | false, some _ => .misuse
          | true, some value =>
            match addValue o value g with
            | some g => scan spec g args
            | none => .misuse
          | true, none => scanValue spec o g args
    | .short letters =>
      match takeLetters spec g letters with
      | .done g => scan spec g args
      | .wants o g => scanValue spec o g args
      | .help => .help
      | .misuse => .misuse

def scanValue (spec : Spec) (o : Switch) (g : Given) : List String → Outcome
  | [] => .misuse
  | arg :: args =>
    if looksLikeValue arg then
      match addValue o arg g with
      | some g => scan spec g args
      | none => .misuse
    else .misuse

-- After two hyphens everything is a word.
def scanWords (spec : Spec) (g : Given) : List String → Outcome
  | [] => .given g
  | arg :: args =>
    match addWord spec arg g with
    | some g => scanWords spec g args
    | none => .misuse

end

-- The configuration file: an argument, else the environment's, else the usual one.
def configOf (env : Environment) (g : Given) : Option String :=
  match g.value? "config", env configVariable with
  | some path, _ => some path
  | none, some path => if path = "" then none else some path
  | none, none => some defaultConfig

def statusOf (g : Given) (preset : Status) : Status :=
  ((g.value? "status").bind fun s => (Status.read s).toOption).getD preset

-- The command with its options; none if one of those it needs is missing.
def command? (env : Environment) (name : String) (g : Given) : Option Command :=
  match name with
  | "export" => do
    let config ← configOf env g
    let data ← g.value? "data"
    let rootTable ← g.value? "root-table"
    let rootId ← (g.value? "root-id").bind RowId.read?
    return .exportReport {
      config, data, rootTable, rootId
      op             := ((g.value? "op").bind OperationType.read?).getD .insert
      status         := statusOf g .draft
      dataCollection := g.value? "data-collection"
      comment        := g.value? "comment"
      out            := g.value? "out" }
  | "parse" => do
    let config ← configOf env g
    let file ← g.positionals[0]?
    let table ← g.value? "table"
    return .parse file config table (g.flag "header")
  | "compare" => do
    let old ← g.positionals[0]?
    let new ← g.positionals[1]?
    return .compare old new (statusOf g .accepted) (g.flag "json")
  | "status" =>
    some (.status ((g.positionals[0]?).bind fun s => (Status.read s).toOption) (g.flag "json"))
  | "check-config" => (configOf env g).map .checkConfig
  | _ => none

-- Only a known topic has a help text.
def helpOn (env : Environment) (topic : Option String) : Request :=
  (Help.on? env topic).elim .misuse .help

def subcommand (env : Environment) (name : String) (args : List String) : Request :=
  match Spec.find? name with
  | none => .misuse
  | some spec =>
    match scan spec {} args with
    | .given g => (command? env name g).elim .misuse .run
    | .help    => helpOn env (some name)
    | .misuse  => .misuse

def helpRequest (env : Environment) : List String → Request
  | []     => helpOn env none
  | [name] => helpOn env (some name)
  | _      => .misuse

-- Letters before the command: the one flag that is known there, and the two that end everything.
def leadingLetters (env : Environment) (wordy : Bool) : List Char → Option Request × Bool
  | [] => (none, wordy)
  | 'h' :: _ => (some (helpOn env none), wordy)
  | 'V' :: _ => (some .version, wordy)
  | 'v' :: cs => if wordy then (some .misuse, wordy) else leadingLetters env true cs
  | _ => (some .misuse, wordy)

def readFrom (env : Environment) (wordy : Bool) : List String → Request
  | [] => .misuse
  | arg :: args =>
    match shapeOf arg with
    | .stop => .misuse
    | .long "help" none => helpOn env none
    | .long "version" none => .version
    | .long "verbose" none => if wordy then .misuse else readFrom env true args
    | .long _ _ => .misuse
    | .short letters =>
      match leadingLetters env wordy letters with
      | (some request, _) => request
      | (none, wordy) => readFrom env wordy args
    | .word => if arg = "help" then helpRequest env args else subcommand env arg args

-- Reads a command line.
def read (env : Environment) (args : List String) : Request :=
  readFrom env false args

end Arguments

end ReportExchange
