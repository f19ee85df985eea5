import ReportExchange.Catalog.Basic
import ReportExchange.Datum.Basic

namespace ReportExchange

open Datum

namespace Column

def memberNames : List String :=
  ["id", "type", "editable", "visible", "output", "code_formula", "label_formula", "default",
   "natural_key"]

def ofDatum? (f : Form) (d : Datum) : Option Column := do
  let m ← d.members? f memberNames
  let id ← m.required "id" text?
  let type ← m.withDefault "type" .string fun d => (d.word? f).bind ColumnType.ofName?
  let editable ← m.withDefault "editable" true flag?
  let visible ← m.withDefault "visible" true flag?
  let output ← m.withDefault "output" .none fun d => (d.word? f).bind Output.ofName?
  let codeFormula ← m.withDefault "code_formula" none (nullable text?)
  let labelFormula ← m.withDefault "label_formula" none (nullable text?)
  let preset ← m.withDefault "default" none (nullable text?)
  let naturalKey ← m.withDefault "natural_key" false flag?
  return { id, type, editable, visible, output, codeFormula, labelFormula, preset, naturalKey }

def toDatum (c : Column) : Datum :=
  .record [
    ("id", .text c.id),
    ("type", .text c.type.name),
    ("editable", .flag c.editable),
    ("visible", .flag c.visible),
    ("output", .text c.output.name),
    ("code_formula", .ofOption c.codeFormula),
    ("label_formula", .ofOption c.labelFormula),
    ("default", .ofOption c.preset),
    ("natural_key", .flag c.naturalKey)]

end Column

def Relation.ofDatum? (f : Form) (d : Datum) : Option Relation := do
  let m ← d.members? f ["parent", "child", "direct"]
  return {
    parent := ← m.required "parent" text?
    child  := ← m.required "child" text?
    direct := ← m.withDefault "direct" true flag? }

def TableDefinition.ofDatum? (f : Form) (d : Datum) : Option TableDefinition := do
  let m ← d.members? f ["name", "traversable", "generates_record", "columns"]
  return {
    name            := ← m.required "name" text?
    traversable     := ← m.withDefault "traversable" false flag?
    generatesRecord := ← m.withDefault "generates_record" false flag?
    columns         := ← m.withDefault "columns" [] (each (Column.ofDatum? f)) }

def CatalogDefinition.ofDatum? (f : Form) (d : Datum) : Option CatalogDefinition := do
  let m ← d.members? f ["schemas", "relations"]
  return {
    tables    := ← m.withDefault "schemas" [] (each (TableDefinition.ofDatum? f))
    relations := ← m.withDefault "relations" [] (each (Relation.ofDatum? f)) }

end ReportExchange
