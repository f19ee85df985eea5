import ReportExchange.Text.Blank
import ReportExchange.Text.Split

namespace ReportExchange

open Text

-- The two halves of a cell.
inductive Half
  | code
  | label
deriving DecidableEq, Repr

namespace Half

def all : List Half :=
  [code, label]

def name : Half → String
  | code  => "code"
  | label => "label"

def ofName? (name : String) : Option Half :=
  all.find? (·.name = name)

def unknownName (name : String) : String :=
  "unknown field '" ++ name ++ "' (expected code or label)"

end Half

structure Formula where
  source : String
  column : String
  half   : Half
deriving DecidableEq, Repr

namespace Formula

inductive Flaw
  | noMarker
  | tokens (count : Nat)
  | unknownHalf (name : String)
deriving DecidableEq, Repr

def Flaw.message : Flaw → String
  | noMarker         => "missing '%' marker"
  | tokens count     => "expected %<column>.<field>, found " ++ toString count ++ " token(s)"
  | unknownHalf name => Half.unknownName name

-- A text that is no formula.
structure Malformed where
  text : String
  flaw : Flaw
deriving DecidableEq, Repr

def Malformed.message (m : Malformed) : String :=
  "Cannot compile formula '" ++ m.text ++ "': " ++ m.flaw.message

-- The parts of a formula after its marker.
def ofPieces (text : String) : List (List Char) → Except Malformed Formula
  | [column, half] =>
    if column.isEmpty || half.isEmpty then .error ⟨text, .tokens 2⟩
    else match Half.ofName? (String.ofList half) with
      | some h => .ok ⟨trim text, String.ofList column, h⟩
      | none   => .error ⟨text, .unknownHalf (String.ofList half)⟩
  | tokens => .error ⟨text, .tokens tokens.length⟩

-- Reads a formula; blanks around it do not count.
def compile (text : String) : Except Malformed Formula :=
  match trimmed text.toList with
  | '%' :: body => ofPieces text (pieces '.' body)
  | _ => .error ⟨text, .noMarker⟩

end Formula

end ReportExchange
