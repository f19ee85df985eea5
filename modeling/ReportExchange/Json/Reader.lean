import ReportExchange.Datum.Basic
import ReportExchange.Text.Utf16

namespace ReportExchange.Json

def skipSpace : List Char → List Char
  | c :: cs => if c = ' ' ∨ c = '\t' ∨ c = '\n' ∨ c = '\r' then skipSpace cs else c :: cs
  | [] => []

def hex4 (a b c d : Char) : Option Nat := do
  let w ← Text.digitBelow 16 a
  let x ← Text.digitBelow 16 b
  let y ← Text.digitBelow 16 c
  let z ← Text.digitBelow 16 d
  return ((w * 16 + x) * 16 + y) * 16 + z

def simpleEscape : Char → Option Char
  | '\x22' => some '\x22'
  | '\\' => some '\\'
  | '/' => some '/'
  | 'b' => some '\x08'
  | 'f' => some '\x0c'
  | 'n' => some '\n'
  | 'r' => some '\r'
  | 't' => some '\t'
  | _ => none

-- The rest of a string after its opening quote, as code units; those read so far stand reversed. An
-- escape with four digits names one unit, so that a character may take two of them.
def stringRest (read : List Nat) : List Char → Option (List Nat × List Char)
  | [] => none
  | '\x22' :: cs => some (read.reverse, cs)
  | '\\' :: 'u' :: a :: b :: c :: d :: cs =>
    match hex4 a b c d with
    | some u => stringRest (u :: read) cs
    | none => none
  | '\\' :: c :: cs =>
    match simpleEscape c with
    | some e => stringRest (e.toNat :: read) cs
    | none => none
  | c :: cs => if c.toNat < 0x20 then none else stringRest (c.toNat :: read) cs

def textOf (units : List Nat) : Datum :=
  match Text.ofUnits? units with
  | some s => .text s
  | none   => .torn

def recordOf (entries : List (List Nat × Datum)) : Datum :=
  match entries.mapM fun (key, d) => (Text.ofUnits? key).map fun k => (k, d) with
  | some es => .record es
  | none    => .torn

def isDigit (c : Char) : Bool :=
  '0' ≤ c && c ≤ '9'

-- At least one digit.
def digits (cs : List Char) : Option (List Char × List Char) :=
  let ds := cs.takeWhile isDigit
  if ds.isEmpty then none else some (ds, cs.dropWhile isDigit)

def fraction : List Char → Option (List Char × List Char)
  | '.' :: cs => (digits cs).map fun (ds, rest) => ('.' :: ds, rest)
  | cs => some ([], cs)

def exponent : List Char → Option (List Char × List Char)
  | e :: s :: cs =>
    if e = 'e' ∨ e = 'E' then
      if s = '+' ∨ s = '-' then (digits cs).map fun (ds, rest) => (e :: s :: ds, rest)
      else (digits (s :: cs)).map fun (ds, rest) => (e :: ds, rest)
    else some ([], e :: s :: cs)
  | [e] => if e = 'e' ∨ e = 'E' then none else some ([], [e])
  | [] => some ([], [])

-- A number: no leading zero, and a digit on both sides of the point.
def number (cs : List Char) : Option (Datum × List Char) := do
  let (sign, cs) := match cs with
    | '-' :: cs => (['-'], cs)
    | cs => ([], cs)
  let (whole, cs) ← match cs with
    | '0' :: cs => if (cs.head?.map isDigit).getD false then none else some (['0'], cs)
    | cs => digits cs
  let (part, cs) ← fraction cs
  let (power, cs) ← exponent cs
  return (.number (String.ofList (sign ++ whole ++ part ++ power)), cs)

def literals : List (List Char × Datum) :=
  [("null".toList, .null), ("true".toList, .flag true), ("false".toList, .flag false)]

def literal (cs : List Char) : Option (Datum × List Char) :=
  (literals.find? fun l => l.1.isPrefixOf cs).map fun l => (l.2, cs.drop l.1.length)

mutual

-- Every call reads a character or returns, so the length of the text bounds their number.
def value : Nat → List Char → Option (Datum × List Char)
  | 0, _ => none
  | fuel + 1, cs =>
    match skipSpace cs with
    | '\x22' :: cs => (stringRest [] cs).map fun (units, rest) => (textOf units, rest)
    | '[' :: cs =>
      match skipSpace cs with
      | ']' :: cs => some (.list [], cs)
      | cs => (items fuel [] cs).map fun (ds, rest) => (.list ds, rest)
    | '\x7b' :: cs =>
      match skipSpace cs with
      | '\x7d' :: cs => some (.record [], cs)
      | cs => (entries fuel [] cs).map fun (es, rest) => (recordOf es, rest)
    | c :: cs => if c = '-' ∨ isDigit c then number (c :: cs) else literal (c :: cs)
    | [] => none

def items : Nat → List Datum → List Char → Option (List Datum × List Char)
  | 0, _, _ => none
  | fuel + 1, read, cs =>
    match value fuel cs with
    | none => none
    | some (d, cs) =>
      match skipSpace cs with
      | ',' :: cs => items fuel (d :: read) cs
      | ']' :: cs => some ((d :: read).reverse, cs)
      | _ => none

def entries : Nat → List (List Nat × Datum) → List Char →
    Option (List (List Nat × Datum) × List Char)
  | 0, _, _ => none
  | fuel + 1, read, cs =>
    match skipSpace cs with
    | '\x22' :: cs =>
      match stringRest [] cs with
      | none => none
      | some (key, cs) =>
        match skipSpace cs with
        | ':' :: cs =>
          match value fuel cs with
          | none => none
          | some (d, cs) =>
            match skipSpace cs with
            | ',' :: cs => entries fuel ((key, d) :: read) cs
            | '\x7d' :: cs => some (((key, d) :: read).reverse, cs)
            | _ => none
        | _ => none
    | _ => none

end

-- Reads a whole text as one value, and refuses it as a whole, without a reason. Only a string with
-- half a character in it is read as torn, since it does no harm where nobody looks.
def read? (text : String) : Option Datum :=
  let cs := text.toList
  match value (2 * cs.length + 2) cs with
  | some (d, rest) => if (skipSpace rest).isEmpty then some d else none
  | none => none

end ReportExchange.Json
