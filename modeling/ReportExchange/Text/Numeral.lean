namespace ReportExchange.Text

-- A numeral is read from the left: the first character that is no digit, or the first digit that
-- leaves the bounds, decides how reading fails.
inductive NumeralFault
  | empty
  | invalidDigit
  | tooLarge
  | tooSmall
deriving DecidableEq, Repr

namespace NumeralFault

def message : NumeralFault → String
  | empty        => "cannot parse integer from empty string"
  | invalidDigit => "invalid digit found in string"
  | tooLarge     => "number too large to fit in target type"
  | tooSmall     => "number too small to fit in target type"

end NumeralFault

-- The value of a digit; letters of both cases continue after 9.
def digitValue (c : Char) : Option Nat :=
  if '0' ≤ c ∧ c ≤ '9' then some (c.toNat - '0'.toNat)
  else if 'a' ≤ c ∧ c ≤ 'z' then some (c.toNat - 'a'.toNat + 10)
  else if 'A' ≤ c ∧ c ≤ 'Z' then some (c.toNat - 'A'.toNat + 10)
  else none

def digitBelow (radix : Nat) (c : Char) : Option Nat :=
  (digitValue c).filter (· < radix)

-- Reads digits onto `acc`; a value above `limit` fails with `excess`.
def readDigits (radix limit : Nat) (excess : NumeralFault) (acc : Nat) :
    List Char → Except NumeralFault Nat
  | [] => .ok acc
  | c :: cs =>
    match digitBelow radix c with
    | none => .error .invalidDigit
    | some d =>
      if limit < acc * radix + d then .error excess
      else readDigits radix limit excess (acc * radix + d) cs

-- An unsigned numeral of at least one digit.
def readNat (radix limit : Nat) (cs : List Char) : Except NumeralFault Nat :=
  if cs.isEmpty then .error .empty else readDigits radix limit .tooLarge 0 cs

-- A sign alone has no digits and counts as a bad digit.
def readSigned (maxPos maxNeg : Nat) : List Char → Except NumeralFault Int
  | [] => .error .empty
  | ['+'] => .error .invalidDigit
  | ['-'] => .error .invalidDigit
  | '+' :: cs => (readDigits 10 maxPos .tooLarge 0 cs).map Int.ofNat
  | '-' :: cs => (readDigits 10 maxNeg .tooSmall 0 cs).map fun n => -(n : Int)
  | cs => (readDigits 10 maxPos .tooLarge 0 cs).map Int.ofNat

-- A decimal numeral of a signed 64-bit integer, with an optional sign.
def readInt64 (cs : List Char) : Except NumeralFault Int64 :=
  (readSigned (Nat.pow 2 63 - 1) (Nat.pow 2 63) cs).map Int64.ofInt

end ReportExchange.Text
