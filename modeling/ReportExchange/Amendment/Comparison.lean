import ReportExchange.Datum.Basic
import ReportExchange.Intake.Parser

namespace ReportExchange

open Text

-- One field of a result.
structure Fragment where
  tag  : String
  text : String
deriving DecidableEq, Repr

namespace Fragment

def render (f : Fragment) : String :=
  "<" ++ f.tag ++ ">" ++ Xml.escape f.text ++ "</" ++ f.tag ++ ">"

-- Fields that change from one version to the next in any case.
def isBookkeeping (f : Fragment) : Bool :=
  f.tag = Tag.datasetVersion || f.tag = Tag.amendmentType

def toDatum (f : Fragment) : Datum :=
  .record [("tag", .text f.tag), ("text", .text f.text)]

end Fragment

structure Comparison where
  rowId     : Option String := none
  nullified : Bool := false
  -- None if the row is unchanged, or if nothing is said about it.
  amendment : Option AmendmentType := none
  fragments : List Fragment := []
  version   : Option String := none
deriving DecidableEq, Repr

namespace Comparison

def fragment? (c : Comparison) (tag : String) : Option String :=
  (c.fragments.find? (·.tag = tag)).map (·.text)

def content (c : Comparison) : List Fragment :=
  c.fragments.filter (!·.isBookkeeping)

def sameContent (c d : Comparison) : Bool :=
  c.nullified = d.nullified && c.content = d.content

def falseWords : List String := ["", "0", "false", "n", "no"]

def trueWords : List String := ["1", "true", "y", "yes"]

-- Reads a flag; only the case of ASCII letters does not count.
def readFlag (tag text : String) : Except FieldFault Bool :=
  let word := String.ofList ((trimmed text.toList).map Char.toLower)
  if word ∈ falseWords then .ok false
  else if word ∈ trueWords then .ok true
  else .error (.invalidValue tag text)

-- What a field says about the row itself.
def note (c : Comparison) (tag text : String) : Except FieldFault Comparison :=
  if tag = Tag.rowId then
    .ok { c with rowId := if trim text = "" then none else some (trim text) }
  else if tag = Tag.nullified then
    (readFlag tag text).map fun nullified => { c with nullified }
  else if tag = Tag.amendmentType then
    match AmendmentType.readCode text with
    | .ok amendment => .ok { c with amendment }
    | .error word   => .error (.word word)
  else if tag = Tag.datasetVersion then .ok { c with version := versionSuffix text }
  else .ok c

def addField (c : Comparison) (tag text : String) : Except FieldFault Comparison :=
  (c.note tag text).map fun c => { c with fragments := c.fragments ++ [⟨tag, text⟩] }

def assembler : Assembler Comparison Comparison where
  blank  := {}
  field  := addField
  finish := id

def toDatum (c : Comparison) : Datum :=
  .record [
    ("row_id", .ofOption c.rowId),
    ("nullified", .flag c.nullified),
    ("amendment", .ofOption (c.amendment.map (·.name))),
    ("fragments", .list (c.fragments.map Fragment.toDatum)),
    ("version", .ofOption c.version)]

end Comparison

end ReportExchange
