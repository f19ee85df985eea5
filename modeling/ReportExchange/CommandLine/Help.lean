import ReportExchange.CommandLine.Spec
import ReportExchange.CommandLine.Terminal
import ReportExchange.Text.Split

namespace ReportExchange.CommandLine.Help

def capitalName (name : String) : String :=
  String.ofList (name.toList.map fun c => if c = '-' then '_' else c.toUpper)

def valueForm (s : Switch) : String :=
  if s.takesValue then " <" ++ capitalName s.name ++ ">" else ""

def longForm (s : Switch) : String :=
  Terminal.bold ("--" ++ s.name) ++ valueForm s

def shortForm (s : Switch) : String :=
  match s.short with
  | some c => Terminal.bold (String.ofList ['-', c]) ++ ", "
  | none   => "    "

def slotForm (s : Slot) : String :=
  if s.isNeeded then "<" ++ capitalName s.name ++ ">" else "[" ++ capitalName s.name ++ "]"

-- What an option takes where no argument gives it a value.
def presets (env : Environment) (s : Switch) : String :=
  (match s.variableName with
    | some name => " [env: " ++ name ++ "=" ++ (env name).getD "" ++ "]"
    | none => "") ++
  (match s.preset with
    | some value => " [default: " ++ value ++ "]"
    | none => "")

-- One line of a list: its term, plain and as it is shown, and what there is to say of it.
structure Entry where
  term  : String
  shown : String
  help  : String
  -- The columns before the term.
  lead  : Nat := 2

def Entry.ofSwitch (env : Environment) (s : Switch) : Entry where
  term  := "--" ++ s.name ++ valueForm s
  shown := shortForm s ++ longForm s
  help  := s.meaning ++ presets env s
  lead  := 6

def Entry.ofSlot (s : Slot) : Entry where
  term  := slotForm s
  shown := slotForm s
  help  := s.meaning

def Entry.ofCommand (name about : String) : Entry where
  term  := name
  shown := Terminal.bold name
  help  := about

-- The columns of a terminal.
def lineWidth : Nat := 100

-- Where the terms take up much of a line and a help text would run over its end, all texts stand on
-- lines of their own.
def isCrowded (longest : Nat) (entries : List Entry) : Bool :=
  2 * lineWidth < 5 * (longest + 12) && longest + 12 ≤ lineWidth &&
  entries.any fun e => lineWidth - (longest + 12) < e.help.length

def longestTerm (entries : List Entry) : Nat :=
  entries.foldl (fun w e => max w e.term.length) 0

def blanks (n : Nat) : String :=
  String.ofList (List.replicate n ' ')

-- All lines of a text but the first begin with blanks.
def indented (n : Nat) (s : String) : String :=
  ("\n" ++ blanks n).intercalate ((Text.pieces '\n' s.toList).map String.ofList)

def entryText (crowded : Bool) (longest : Nat) (e : Entry) : String :=
  if crowded then "  " ++ e.shown ++ "\n" ++ blanks 10 ++ indented 10 e.help ++ "\n"
  else
    "  " ++ e.shown ++ blanks (longest + 2 - e.term.length) ++
    indented (e.lead + longest + 2) e.help ++ "\n"

-- A list under a title; there is none without entries.
def list (title : String) (entries : List Entry) : String :=
  let longest := longestTerm entries
  if entries.isEmpty then ""
  else
    "\n" ++ Terminal.heading (title ++ ":") ++ "\n" ++
    String.join (entries.map (entryText (isCrowded longest entries) longest))

def usage (spec : Spec) : String :=
  " ".intercalate (
    [Terminal.heading "Usage:", Terminal.bold ("collecta " ++ spec.name), "[OPTIONS]"] ++
    (spec.switches.filter (·.isNeeded)).map longForm ++
    spec.slots.map slotForm)

-- The help of one command.
def ofSpec (env : Environment) (spec : Spec) : String :=
  spec.about ++ "\n\n" ++ usage spec ++ "\n" ++
  list "Arguments" (spec.slots.map Entry.ofSlot) ++
  list "Options" ((spec.switches ++ [Switch.help]).map (Entry.ofSwitch env))

def helpAbout : String := "Print this message or the help of the given subcommand(s)"

def commands : List Entry :=
  Spec.all.map (fun s => Entry.ofCommand s.name s.about) ++ [Entry.ofCommand "help" helpAbout]

-- The help of the program as a whole.
def general (env : Environment) : String :=
  "Hierarchical report exchange toolkit\n\n" ++
  Terminal.heading "Usage:" ++ " " ++ Terminal.bold "collecta" ++ " [OPTIONS] <COMMAND>\n" ++
  list "Commands" commands ++
  list "Options" ([Switch.verbose, Switch.help, Switch.version].map (Entry.ofSwitch env))

-- The help of the command that prints help.
def ofHelp : String :=
  helpAbout ++ "\n\n" ++
  Terminal.heading "Usage:" ++ " " ++ Terminal.bold "collecta help" ++ " [COMMAND]...\n" ++
  list "Arguments" [
    { term := "[COMMAND]...", shown := "[COMMAND]...", help := "Print help for the subcommand(s)" }]

def styledOn? (env : Environment) (topic : Option String) : Option String :=
  match topic with
  | none => some (general env)
  | some "help" => some ofHelp
  | some name => (Spec.find? name).map (ofSpec env)

-- The help on a topic: the program, or one of its commands. Unless they are to be kept, escape
-- sequences are taken out of it, those that come from the environment too.
def on? (env : Environment) (topic : Option String) : Option String :=
  (styledOn? env topic).map fun s => if Terminal.keepsStyle env then s else Terminal.plain s

end ReportExchange.CommandLine.Help
