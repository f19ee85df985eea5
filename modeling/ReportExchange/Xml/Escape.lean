import ReportExchange.Text.Numeral

namespace ReportExchange.Xml

open Text

def escapeChar (c : Char) : List Char :=
  match c with
  | '<' => "&lt;".toList
  | '>' => "&gt;".toList
  | '&' => "&amp;".toList
  | '\x27' => "&apos;".toList
  | '\x22' => "&quot;".toList
  | c => [c]

def escape (s : String) : String :=
  String.ofList (s.toList.flatMap escapeChar)

inductive ReferenceFault
  | sign
  | numeral (cause : NumeralFault)
  | notCodePoint (value : Nat)
  | null
deriving DecidableEq, Repr

namespace ReferenceFault

def message : ReferenceFault → String
  | sign => "unexpected number sign"
  | numeral cause => cause.message
  | notCodePoint value => "`" ++ toString value ++ "` is not a valid codepoint"
  | null => "0x0 character is not permitted in XML"

end ReferenceFault

-- Places are byte offsets in the text.
inductive EscapeFault
  | unterminated (start stop : Nat)
  | unrecognized (start stop : Nat) (name : String)
  | reference (cause : ReferenceFault)
deriving DecidableEq, Repr

namespace EscapeFault

def rangeText (start stop : Nat) : String :=
  toString start ++ ".." ++ toString stop

def message : EscapeFault → String
  | unterminated start stop =>
    "Error while escaping character at range " ++ rangeText start stop ++
    ": Cannot find ';' after '&'"
  | unrecognized start stop name =>
    "at " ++ rangeText start stop ++ ": unrecognized entity `" ++ name ++ "`"
  | reference cause => "invalid character reference: " ++ cause.message

end EscapeFault

def predefined : List (List Char × Char) :=
  [("lt".toList, '<'), ("gt".toList, '>'), ("amp".toList, '&'), ("apos".toList, '\x27'),
   ("quot".toList, '\x22')]

def readReference (radix : Nat) (digits : List Char) : Except ReferenceFault Nat :=
  if digits.head? = some '+' ∨ digits.head? = some '-' then .error .sign
  else match readNat radix (Nat.pow 2 32 - 1) digits with
    | .ok n    => .ok n
    | .error f => .error (.numeral f)

-- The character that a numeric reference stands for; `digits` is what follows the number sign.
def referenced (digits : List Char) : Except ReferenceFault Char :=
  let code := match digits with
    | 'x' :: digits => readReference 16 digits
    | digits => readReference 10 digits
  match code with
  | .error f => .error f
  | .ok n =>
    if n = 0 then .error .null
    else if n.isValidChar then .ok (Char.ofNat n)
    else .error (.notCodePoint n)

-- The character that an entity stands for. It stands between the offsets of its name.
def entity (start stop : Nat) (name : List Char) : Except EscapeFault Char :=
  match name with
  | '#' :: digits =>
    match referenced digits with
    | .ok c    => .ok c
    | .error f => .error (.reference f)
  | name =>
    match predefined.find? (·.1 = name) with
    | some e => .ok e.2
    | none   => .error (.unrecognized start stop (String.ofList name))

-- Reads text from a byte offset on. Inside an entity, `inside` has the offset of its ampersand and
-- the characters of its name so far, the last one first.
def unescapeFrom (total offset : Nat) (inside : Option (Nat × List Char)) :
    List Char → Except EscapeFault (List Char)
  | [] =>
    match inside with
    | none => .ok []
    | some (start, _) => .error (.unterminated start total)
  | c :: cs =>
    match inside with
    | none =>
      if c = '&' then unescapeFrom total (offset + 1) (some (offset, [])) cs
      else (unescapeFrom total (offset + c.utf8Size) none cs).map (c :: ·)
    | some (start, name) =>
      if c = '&' then .error (.unterminated start total)
      else if c = ';' then
        match entity (start + 1) offset name.reverse with
        | .error f => .error f
        | .ok e    => (unescapeFrom total (offset + 1) none cs).map (e :: ·)
      else unescapeFrom total (offset + c.utf8Size) (some (start, c :: name)) cs

def unescape (s : String) : Except EscapeFault String :=
  (unescapeFrom s.utf8ByteSize 0 none s.toList).map String.ofList

end ReportExchange.Xml
