namespace ReportExchange.Text

-- The least number that is rounded up to infinity, halfway past the largest 64-bit float.
def infinityBound : Nat :=
  Nat.pow 2 1024 - Nat.pow 2 970

-- The parts of an unsigned number: the digits before the point, those after it, and the power of
-- ten that follows.
structure Decimal where
  whole : List Char
  part  : List Char
  power : Int

namespace Decimal

def natOf (ds : List Char) : Nat :=
  ds.foldl (fun n d => n * 10 + (d.toNat - '0'.toNat)) 0

def powerOf (cs : List Char) : Int :=
  match cs with
  | '-' :: ds => -(natOf ds : Int)
  | '+' :: ds => natOf ds
  | ds        => natOf ds

-- The text is a number, so it need not be checked again.
def ofText (cs : List Char) : Decimal :=
  let mantissa := cs.takeWhile fun c => c ≠ 'e' ∧ c ≠ 'E'
  { whole := mantissa.takeWhile (· ≠ '.')
    part  := (mantissa.dropWhile (· ≠ '.')).drop 1
    power := powerOf ((cs.drop mantissa.length).drop 1) }

def digits (d : Decimal) : Nat :=
  natOf (d.whole ++ d.part)

def exponent (d : Decimal) : Int :=
  d.power - d.part.length

-- Whether the float nearest to a number is finite. Only a number of 309 digits before the point has
-- to be looked at closely.
def fits (d : Decimal) : Bool :=
  let places := (Nat.toDigits 10 d.digits).length + d.exponent
  if d.digits = 0 || places < 309 then true
  else if 309 < places then false
  else d.digits * Nat.pow 10 d.exponent.toNat < infinityBound * Nat.pow 10 (-d.exponent).toNat

end Decimal

def decimalFits (cs : List Char) : Bool :=
  (Decimal.ofText cs).fits

-- A whole number with the 53 leading bits of a float; a half goes to the even neighbour.
def rounded (n : Nat) : Nat :=
  let unit := Nat.pow 2 (n.log2 - 52)
  let low := n / unit
  let rest := 2 * (n % unit)
  if unit < rest || (unit = rest && low % 2 = 1) then (low + 1) * unit else low * unit

-- Digits gathered in 64 bits, with the power of ten that goes with them.
structure Gathered where
  digits   : Nat := 0
  exponent : Int := 0

namespace Gathered

-- Once a digit does not fit, the digits before the point count as tens only.
def gatherWhole (digits : Nat) : List Char → Gathered
  | [] => ⟨digits, 0⟩
  | c :: cs =>
    let next := digits * 10 + (c.toNat - '0'.toNat)
    if next < Nat.pow 2 64 then gatherWhole next cs else ⟨digits, cs.length + 1⟩

-- Once a digit does not fit, the digits after the point do not count.
def gatherPart (g : Gathered) : List Char → Gathered
  | [] => g
  | c :: cs =>
    let next := g.digits * 10 + (c.toNat - '0'.toNat)
    if next < Nat.pow 2 64 then gatherPart ⟨next, g.exponent - 1⟩ cs else g

def ofDecimal (d : Decimal) : Gathered :=
  let g := gatherPart (gatherWhole 0 d.whole) d.part
  { g with exponent := g.exponent + d.power }

-- Whether the digits times their power of ten are finite, if both are floats, and their product is
-- rounded to one.
def fits (g : Gathered) : Bool :=
  g.digits = 0 || g.exponent < 0 ||
  (g.exponent < 309 && rounded g.digits * rounded (Nat.pow 10 g.exponent.toNat) < infinityBound)

end Gathered

def gatheredFits (cs : List Char) : Bool :=
  (Gathered.ofDecimal (Decimal.ofText cs)).fits

end ReportExchange.Text
