namespace ReportExchange.CommandLine

-- The variables that are set, each with its value.
abbrev Environment := String → Option String

namespace Terminal

def escape : Char := '\x1b'

def bold (s : String) : String :=
  "\x1b[1m" ++ s ++ "\x1b[0m"

def heading (s : String) : String :=
  "\x1b[1m\x1b[4m" ++ s ++ "\x1b[0m"

-- Whether escape sequences are kept in an output that is no terminal: only if the environment asks
-- for colours, and does not also ask for none.
def keepsStyle (env : Environment) : Bool :=
  (env "NO_COLOR").getD "" = "" && (env "CLICOLOR_FORCE").getD "0" ≠ "0"

-- How far an escape sequence has come.
inductive Phase
  | none
  | escape
  -- Bytes between the escape and its last one.
  | intermediate
  | control
  -- A title or a like text, which a bell ends.
  | command
  -- The head of a device string, and a string that only its own sign ends.
  | deviceHead
  | string
deriving DecidableEq, Repr

-- The sign that ends a string is one byte of some characters.
def endsString (c : Char) : Bool :=
  0x80 ≤ c.toNat && (String.utf8EncodeChar c).contains 0x9C

def isFinal (c : Char) : Bool :=
  0x40 ≤ c.toNat && c.toNat ≤ 0x7E

def afterEscape (c : Char) : Phase :=
  if c = '[' then .control
  else if c = ']' then .command
  else if c = 'P' then .deviceHead
  else if c = 'X' || c = '^' || c = '_' then .string
  else if 0x20 ≤ c.toNat && c.toNat ≤ 0x2F then .intermediate
  else if 0x30 ≤ c.toNat && c.toNat ≤ 0x7E then .none
  else .escape

-- The phase after a character. An escape begins anew, and two control characters cancel.
def Phase.next (p : Phase) (c : Char) : Phase :=
  if c = Terminal.escape then .escape
  else if c = '\x18' || c = '\x1a' then .none
  else match p with
    | .none => .none
    | .escape => afterEscape c
    | .intermediate => if 0x30 ≤ c.toNat && c.toNat ≤ 0x7E then .none else .intermediate
    | .control => if isFinal c then .none else .control
    | .command => if c = '\x07' then .none else .command
    | .deviceHead => if isFinal c then .string else .deviceHead
    | .string => if endsString c then .none else .string

-- Blank control characters are shown, and all characters that are no control characters.
def isBlankControl (c : Char) : Bool :=
  c = '\t' || c = '\n' || c = '\x0c' || c = '\r'

def isShown (c : Char) : Bool :=
  isBlankControl c || (0x20 ≤ c.toNat && c.toNat ≠ 0x7F)

-- Whether a character is shown in the middle of a sequence: only a blank control character is, and
-- not within a string.
def Phase.shows (p : Phase) (c : Char) : Bool :=
  match p with
  | .none => isShown c
  | .escape | .intermediate | .control => isBlankControl c
  | .command | .deviceHead | .string => false

-- The characters that are left of a text. While characters are being shown a sequence rests, up to
-- the next control character; a character outside ASCII ends it.
def shown (p : Phase) (isShowing : Bool) : List Char → List Char
  | [] => []
  | c :: cs =>
    if isShowing && isShown c then c :: shown (if 0x80 ≤ c.toNat then .none else p) true cs
    else if p.shows c then c :: shown (p.next c) true cs
    else shown (p.next c) false cs

-- A text without its escape sequences.
def plain (s : String) : String :=
  String.ofList (shown .none true s.toList)

end Terminal

end ReportExchange.CommandLine
