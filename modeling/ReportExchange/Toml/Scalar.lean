import ReportExchange.Datum.Basic
import ReportExchange.Text.Magnitude

namespace ReportExchange.Toml

open Text

def isSpace (c : Char) : Bool :=
  c = ' ' || c = '\t'

def skipSpace (cs : List Char) : List Char :=
  cs.dropWhile isSpace

-- Control characters other than the tab stand nowhere but in line ends.
def isPlain (c : Char) : Bool :=
  c = '\t' || (0x20 ≤ c.toNat && c.toNat ≠ 0x7F)

-- What follows a line end, if one stands here.
def lineEnd? : List Char → Option (List Char)
  | '\n' :: cs => some cs
  | '\r' :: '\n' :: cs => some cs
  | _ => none

def quote : Char := '\x22'
def apostrophe : Char := '\x27'

def simpleEscape : Char → Option Char
  | 'b' => some '\x08'
  | 't' => some '\t'
  | 'n' => some '\n'
  | 'f' => some '\x0c'
  | 'r' => some '\r'
  | '\x22' => some '\x22'
  | '\\' => some '\\'
  | _ => none

def hexValue (cs : List Char) : Option Nat :=
  cs.foldlM (fun n c => (digitBelow 16 c).map (n * 16 + ·)) 0

def scalar (digits : List Char) : Option Char := do
  let n ← hexValue digits
  if n.isValidChar then some (Char.ofNat n) else none

-- The character that an escape stands for, and what follows it; `cs` follows the backslash.
def escape (cs : List Char) : Option (Char × List Char) :=
  match cs with
  | 'u' :: cs =>
    if (cs.take 4).length = 4 then (scalar (cs.take 4)).map fun c => (c, cs.drop 4) else none
  | 'U' :: cs =>
    if (cs.take 8).length = 8 then (scalar (cs.take 8)).map fun c => (c, cs.drop 8) else none
  | c :: cs => (simpleEscape c).map fun e => (e, cs)
  | [] => none

-- A string on one line, after its opening quote.
def basicRest : Nat → List Char → List Char → Option (String × List Char)
  | 0, _, _ => none
  | fuel + 1, read, cs =>
    match cs with
    | [] => none
    | '\\' :: cs =>
      match escape cs with
      | some (c, cs) => basicRest fuel (c :: read) cs
      | none => none
    | c :: cs =>
      if c = quote then some (String.ofList read.reverse, cs)
      else if isPlain c then basicRest fuel (c :: read) cs
      else none

def literalRest (read : List Char) : List Char → Option (String × List Char)
  | [] => none
  | c :: cs =>
    if c = apostrophe then some (String.ofList read.reverse, cs)
    else if isPlain c then literalRest (c :: read) cs
    else none

-- Blanks and line ends after a backslash at the end of a line.
def skipLines : Nat → List Char → List Char
  | 0, cs => cs
  | fuel + 1, cs =>
    match lineEnd? (skipSpace cs) with
    | some cs => skipLines fuel cs
    | none => skipSpace cs

-- A run of delimiters in a string of several lines: fewer than three are content, three end the
-- string, and up to two more before them are content again.
inductive Run
  | content (count : Nat)
  | ending (count : Nat)
  | excess

def runOf (delimiter : Char) (cs : List Char) : Run :=
  let n := (cs.takeWhile (· = delimiter)).length
  if n < 3 then .content n else if n ≤ 5 then .ending (n - 3) else .excess

-- A string of several lines, after its opening delimiter; only `quote` knows escapes.
def linesRest (delimiter : Char) : Nat → List Char → List Char → Option (String × List Char)
  | 0, _, _ => none
  | fuel + 1, read, cs =>
    match cs with
    | [] => none
    | c :: cs' =>
      if c = delimiter then
        match runOf delimiter cs with
        | .content n => linesRest delimiter fuel (List.replicate n delimiter ++ read) (cs.drop n)
        | .ending n =>
          some (String.ofList (List.replicate n delimiter ++ read).reverse, cs.drop (n + 3))
        | .excess => none
      else if c = '\\' ∧ delimiter = quote then
        match lineEnd? (skipSpace cs') with
        | some rest => linesRest delimiter fuel read (skipLines fuel rest)
        | none =>
          match escape cs' with
          | some (e, rest) => linesRest delimiter fuel (e :: read) rest
          | none => none
      else
        match lineEnd? cs with
        | some rest => linesRest delimiter fuel ('\n' :: read) rest
        | none => if isPlain c then linesRest delimiter fuel (c :: read) cs' else none

-- A string of one line.
def shortString (cs : List Char) : Option (String × List Char) :=
  match cs with
  | c :: rest =>
    if c = quote then basicRest (rest.length + 1) [] rest
    else if c = apostrophe then literalRest [] rest
    else none
  | [] => none

-- A line end right after the opening delimiter does not count.
def string (cs : List Char) : Option (String × List Char) :=
  match cs with
  | a :: b :: c :: rest =>
    if (a = quote ∨ a = apostrophe) ∧ b = a ∧ c = a then
      let body := (lineEnd? rest).getD rest
      linesRest a (body.length + 1) [] body
    else shortString cs
  | _ => shortString cs

-- Digits, of which any two may have one underscore between them.
def digitsWith (digit : Char → Bool) : List Char → Bool
  | [] => false
  | [c] => digit c
  | c :: '_' :: cs => digit c && digitsWith digit cs
  | c :: cs => digit c && digitsWith digit cs

def isDigit (c : Char) : Bool :=
  '0' ≤ c && c ≤ '9'

def unsigned (cs : List Char) : List Char :=
  match cs with
  | '+' :: cs => cs
  | '-' :: cs => cs
  | cs => cs

-- Without leading zeros.
def isWhole (cs : List Char) : Bool :=
  digitsWith isDigit cs && (cs.length = 1 || cs.head? ≠ some '0')

def largest : Nat := Nat.pow 2 63 - 1

def radixOf : Char → Option Nat
  | 'x' => some 16
  | 'o' => some 8
  | 'b' => some 2
  | _ => none

def integer? (cs : List Char) : Option Datum :=
  let plain (cs : List Char) : Option Datum :=
    if isWhole (unsigned cs) then
      ((readInt64 (cs.filter (· ≠ '_'))).toOption).map fun n => .ofInt n.toInt
    else none
  match cs with
  | '0' :: r :: ds =>
    match radixOf r with
    | none => plain cs
    | some radix =>
      if digitsWith (fun c => (digitBelow radix c).isSome) ds then
        ((readNat radix largest (ds.filter (· ≠ '_'))).toOption).map .ofNat
      else none
  | cs => plain cs

def isExponent : List Char → Bool
  | e :: cs => (e = 'e' || e = 'E') && digitsWith isDigit (unsigned cs)
  | [] => false

def isMantissaChar (c : Char) : Bool :=
  isDigit c || c = '_'

def isFraction : List Char → Bool
  | '.' :: cs =>
    digitsWith isDigit (cs.takeWhile isMantissaChar) &&
    ((cs.dropWhile isMantissaChar).isEmpty || isExponent (cs.dropWhile isMantissaChar))
  | _ => false

-- Only a float below all others may be out of range.
def isFloat (cs : List Char) : Bool :=
  let body := unsigned cs
  let tail := body.dropWhile isMantissaChar
  body = "inf".toList || body = "nan".toList ||
  (isWhole (body.takeWhile isMantissaChar) && (isFraction tail || isExponent tail) &&
    (cs.head? = some '-' || decimalFits (body.filter (· ≠ '_'))))

def number2 (a b : Char) : Option Nat := do
  let x ← digitBelow 10 a
  let y ← digitBelow 10 b
  return x * 10 + y

def monthLength (year month : Nat) : Nat :=
  if month = 2 then
    if year % 4 = 0 ∧ (year % 100 ≠ 0 ∨ year % 400 = 0) then 29 else 28
  else if month = 4 ∨ month = 6 ∨ month = 9 ∨ month = 11 then 30
  else 31

def isDate : List Char → Bool
  | [a, b, c, d, '-', e, f, '-', g, h] =>
    match number2 a b, number2 c d, number2 e f, number2 g h with
    | some century, some year, some month, some day =>
      1 ≤ month && month ≤ 12 && 1 ≤ day && day ≤ monthLength (century * 100 + year) month
    | _, _, _, _ => false
  | _ => false

def isHourMinute (a b c d : Char) : Bool :=
  match number2 a b, number2 c d with
  | some hour, some minute => hour ≤ 23 && minute ≤ 59
  | _, _ => false

def isOffset : List Char → Bool
  | [] => true
  | ['Z'] => true
  | ['z'] => true
  | [s, a, b, ':', c, d] => (s = '+' || s = '-') && isHourMinute a b c d
  | _ => false

-- What follows a time of day; a second may be the sixtieth.
def afterTime? : List Char → Option (List Char)
  | a :: b :: ':' :: c :: d :: ':' :: e :: f :: cs =>
    match number2 e f with
    | some second =>
      if isHourMinute a b c d && second ≤ 60 then
        match cs with
        | '.' :: cs => if (cs.takeWhile isDigit).isEmpty then none else some (cs.dropWhile isDigit)
        | cs => some cs
      else none
    | none => none
  | _ => none

def isLocalTime (cs : List Char) : Bool :=
  afterTime? cs = some []

def isTime (cs : List Char) : Bool :=
  match afterTime? cs with
  | some rest => isOffset rest
  | none => false

-- A date, a time, or both with an optional offset.
def isMoment (cs : List Char) : Bool :=
  isDate cs || isLocalTime cs ||
  (isDate (cs.take 10) && match cs.drop 10 with
    | t :: time => (t = 'T' || t = 't' || t = ' ') && isTime time
    | [] => false)

def isTokenChar (c : Char) : Bool :=
  c.isAlphanum || c = '+' || c = '-' || c = '_' || c = '.' || c = ':'

def scalarOf? (token : List Char) : Option Datum :=
  if token = "true".toList then some (.flag true)
  else if token = "false".toList then some (.flag false)
  else if isMoment token then some (.moment (String.ofList token))
  else if isFloat token then some (.number (String.ofList token))
  else integer? token

-- A value without quotes or brackets. A blank may stand between a date and a time.
def bare (cs : List Char) : Option (Datum × List Char) :=
  let token := cs.takeWhile isTokenChar
  let rest := cs.dropWhile isTokenChar
  match isDate token, rest with
  | true, ' ' :: time =>
    let long := token ++ ' ' :: time.takeWhile isTokenChar
    if (time.head?.map isDigit).getD false then
      (scalarOf? long).map fun d => (d, time.dropWhile isTokenChar)
    else (scalarOf? token).map fun d => (d, rest)
  | _, _ => (scalarOf? token).map fun d => (d, rest)

end ReportExchange.Toml
