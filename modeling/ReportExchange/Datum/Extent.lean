import ReportExchange.Datum.Basic
import ReportExchange.Text.Magnitude

namespace ReportExchange.Datum

-- The sign of a number has no part in its range.
def numberFits (literal : String) : Bool :=
  Text.gatheredFits (literal.toList.dropWhile (· = '-'))

mutual

-- Whether a datum can be held; `depth` counts the brackets that may stand around a value.
def fits (depth : Nat) : Datum → Bool
  | number literal => numberFits literal
  | torn => false
  | list items => 0 < depth && allFit (depth - 1) items
  | record entries => 0 < depth && entriesFit (depth - 1) entries
  | _ => true

def allFit (depth : Nat) : List Datum → Bool
  | [] => true
  | d :: ds => fits depth d && allFit depth ds

def entriesFit (depth : Nat) : List (String × Datum) → Bool
  | [] => true
  | (_, d) :: es => fits depth d && entriesFit depth es

end

end ReportExchange.Datum
