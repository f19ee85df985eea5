namespace ReportExchange.Calendar

-- A day of the proleptic Gregorian calendar.
structure Date where
  year  : Int
  month : Nat
  day   : Nat
deriving DecidableEq, Repr

-- Years are counted from March, so that the leap day ends a year; 400 years are 146097 days.
def dateOfDay (daysSince1970 : Int) : Date :=
  let z := daysSince1970 + 719468
  let era := Int.fdiv z 146097
  let dayOfEra := (z - era * 146097).toNat
  let yearOfEra := (dayOfEra - dayOfEra / 1460 + dayOfEra / 36524 - dayOfEra / 146096) / 365
  let dayOfYear := dayOfEra - (365 * yearOfEra + yearOfEra / 4 - yearOfEra / 100)
  let m := (5 * dayOfYear + 2) / 153
  let month := if m < 10 then m + 3 else m - 9
  { year  := yearOfEra + era * 400 + (if month ≤ 2 then 1 else 0)
    month := month
    day   := dayOfYear - (153 * m + 2) / 5 + 1 }

def padded (width n : Nat) : String :=
  let digits := toString n
  String.ofList (List.replicate (width - digits.length) '0') ++ digits

-- Four digits; a year outside 0 to 9999 has a sign as well.
def yearText (y : Int) : String :=
  if 0 ≤ y ∧ y ≤ 9999 then padded 4 y.toNat
  else (if y < 0 then "-" else "+") ++ padded 4 y.natAbs

-- The text `YYYY-MM-DDTHH:MM:SSZ` of a moment.
def utc (seconds : Int) : String :=
  let date := dateOfDay (Int.fdiv seconds 86400)
  let ofDay := (Int.fmod seconds 86400).toNat
  yearText date.year ++ "-" ++ padded 2 date.month ++ "-" ++ padded 2 date.day ++ "T" ++
  padded 2 (ofDay / 3600) ++ ":" ++ padded 2 (ofDay / 60 % 60) ++ ":" ++ padded 2 (ofDay % 60) ++ "Z"

end ReportExchange.Calendar
