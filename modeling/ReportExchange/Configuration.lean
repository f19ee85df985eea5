import ReportExchange.Catalog.Codec
import ReportExchange.Envelope.Sender
import ReportExchange.Index
import ReportExchange.Intake.Rows
import ReportExchange.Toml.Reader

namespace ReportExchange

open Datum

inductive ConfigurationError
  | unreadable (path reason : String)
  | malformed
  | sender (cause : SenderFault)
  | catalog (cause : CatalogError)
deriving DecidableEq, Repr

namespace ConfigurationError

def message : ConfigurationError → String
  | unreadable path reason => "Cannot read config file " ++ path ++ ": " ++ reason
  | malformed => "Invalid config file"
  | sender cause => "Invalid [message] section: " ++ cause.message
  | catalog cause => cause.message

end ConfigurationError

structure Configuration where
  sender    : Sender := {}
  composite : Option CompositeField := none
  catalog   : CatalogDefinition := {}

def CompositeField.ofDatum? (f : Form) (d : Datum) : Option CompositeField := do
  let m ← d.members? f ["tag", "column"]
  return { tag := ← m.required "tag" text?, column := ← m.required "column" text? }

namespace Configuration

-- A table of header fields that holds one that cannot be configured is no sender at all.
def senderOfDatum? (d : Datum) : Option Sender := do
  let entries ← d.entries?
  let values ← entries.mapM fun (tag, value) => value.text?.map fun text => (tag, text)
  (Sender.ofEntries (Index.ofList values)).toOption

def compositeOfDatum? (d : Datum) : Option (Option CompositeField) := do
  let m ← d.members? .toml ["composite"]
  m.withDefault "composite" none (nullable (CompositeField.ofDatum? .toml))

-- What is not for the sender or for reading is set aside, and the catalog found in it.
def ofDatum? (d : Datum) : Option Configuration := do
  let m ← d.members? .toml ["message", "parser"]
  return {
    sender    := ← m.withDefault "message" {} senderOfDatum?
    composite := ← m.withDefault "parser" none compositeOfDatum?
    catalog   := ← CatalogDefinition.ofDatum? .tomlAside d }

-- Reads a configuration. Its sender has to be complete; its catalog is built only when it is used.
def ofToml (text : String) : Except ConfigurationError Configuration :=
  match (Toml.read? text).bind ofDatum? with
  | none => .error .malformed
  | some c =>
    match c.sender.validate with
    | .error cause => .error (.sender cause)
    | .ok ()       => .ok c

def build (c : Configuration) : Except ConfigurationError Catalog :=
  match Catalog.build c.catalog with
  | .ok catalog  => .ok catalog
  | .error cause => .error (.catalog cause)

end Configuration

-- A catalog from a file of its own.
def Catalog.ofToml (text : String) : Except CatalogError Catalog :=
  match (Toml.read? text).bind (CatalogDefinition.ofDatum? .toml) with
  | some d => Catalog.build d
  | none   => .error .malformed

end ReportExchange
