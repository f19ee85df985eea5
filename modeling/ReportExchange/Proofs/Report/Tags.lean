import ReportExchange.Proofs.Catalog.Build
import ReportExchange.Proofs.Intake.Document
import ReportExchange.Proofs.Intake.Message
import ReportExchange.Proofs.Xml.Tag
import ReportExchange.Report.Export
import ReportExchange.Store.DataFile

namespace ReportExchange

open Text Xml Xml.Element

namespace Intake

variable {i i' : Intake Fields} {begun : List String}

-- The tags of the result that is open, the one of an open field included.
def Place.tags : Place Fields → Option (List String)
  | .result fields      => some (fields.map (·.1))
  | .field fields tag _ => some (fields.map (·.1) ++ [tag])
  | _                   => none

-- Within a result, every element that begins is one more field.
theorem tags_of_take {e : Event} (h : i.take .verbatim e = .ok (i', none))
    (ht : i.place.tags = some begun) : i'.place.tags = some (begun ++ e.tags) := by
  obtain ⟨place, header, operation⟩ := i
  cases place <;> cases ht
  case result fields =>
    cases e
    case opening | empty => cases h; simp [moved, Place.tags, Event.tags]
    case closing         => cases h
    case aside | done    => cases h; simp [Place.tags, Event.tags]
    case text s | cdata s =>
      obtain ⟨_, hp, ⟨⟩⟩ := map_eq_ok.mp h
      simp only [pushed] at hp
      split at hp <;> cases hp
      simp [Place.tags, Event.tags]
  case field fields tag text =>
    cases e
    case opening | empty => cases h
    case closing         => cases h; simp [moved, Place.tags, Event.tags]
    case aside | done    => cases h; simp [Place.tags, Event.tags]
    case text | cdata    => cases h; simp [moved, Place.tags, Event.tags]

theorem Takes.tags {es : List Event} (h : Takes .verbatim i es [] i')
    (ht : i.place.tags = some begun) : i'.place.tags = some (begun ++ es.flatMap Event.tags) := by
  generalize hs : ([] : List Fields) = rs at h
  induction h generalizing begun
  case nil    => simpa using ht
  case record => cases hs
  case silent htake _ hi =>
    rw [hi (tags_of_take htake ht) hs, List.flatMap_cons, List.append_assoc]

theorem takes_leaf {fields : Fields} {header : HeaderField → Option String}
    {operation : OperationField → Option String} (depth : Nat) (tag text : String) :
    Takes .verbatim ⟨.result fields, header, operation⟩ (events depth (.leaf tag text)) []
      ⟨.result (fields ++ [(tag, text)]), header, operation⟩ := by
  have hb : (⟨.result fields, header, operation⟩ : Intake Fields).take Assembler.verbatim
      (.text (lineStart depth)) = .ok (⟨.result fields, header, operation⟩, none) := by
    rw [take, pushed]
    simp only [Grammar.allBlank_lineStart, if_pos]
    rfl
  refine .silent (by simp) hb ?_
  rw [leafEvents]
  split
  case isTrue ht  => exact ht ▸ .silent (by simp) rfl .nil
  case isFalse ht =>
    have hp : (⟨.field fields tag "", header, operation⟩ : Intake Fields).take Assembler.verbatim
        (.text text) = .ok (⟨.field fields tag text, header, operation⟩, none) := by
      simp [take, pushed, moved, Except.map]
    exact .silent (by simp) rfl (.silent (by simp) hp (.silent (by simp) rfl .nil))

end Intake

-- A place in a document at which a field of a result is written, and what has been read before it.
structure Surroundings where
  depth     : Nat
  position  : Nat
  opens     : List Bytes
  -- What follows the field.
  rest      : Bytes
  fields    : Fields
  header    : HeaderField → Option String
  operation : OperationField → Option String

namespace Surroundings

variable {id text : String} {s : Surroundings}

-- A leaf that is written there is read as one more field, with its own tag and text.
def Keeps (s : Surroundings) (tag text : String) : Prop :=
  ∃ es position,
    Cursor.Path ⟨bytes (render s.depth (.leaf tag text)) ++ s.rest, s.position, s.opens⟩ es
      ⟨s.rest, position, s.opens⟩ ∧
    Intake.Takes .verbatim ⟨.result s.fields, s.header, s.operation⟩ es []
      ⟨.result (s.fields ++ [(tag, text)]), s.header, s.operation⟩

theorem keeps_of_legible (h : Legible (bytes id)) : s.Keeps id text := by
  obtain ⟨position, hp⟩ := reads_leaf s.depth h s.rest s.position
  exact ⟨_, position, hp, Intake.takes_leaf s.depth id text⟩

theorem legible_of_keeps (h : ∀ text, s.Keeps id text) : Legible (bytes id) := by
  have tags {es : List Event} {text : String}
      (ht : Intake.Takes .verbatim ⟨.result s.fields, s.header, s.operation⟩ es []
        ⟨.result (s.fields ++ [(id, text)]), s.header, s.operation⟩) :
      es.flatMap Event.tags = [id] := by
    have he := ht.tags rfl
    simpa [Intake.Place.tags] using he.symm
  have hn : id ≠ "" := by
    rintro rfl
    obtain ⟨_, _, hp, ht⟩ := h ""
    cases (tags_of_unnamed hp).symm.trans (tags ht)
  obtain ⟨_, _, hp, ht⟩ := h "x"
  exact legible_of_leaf hp (tags ht) hn (by decide)

end Surroundings

-- Lots with one column, which goes into every record under its own id.
namespace Vats

def definition (id : String) : CatalogDefinition where
  tables := [
    { name := "lot", traversable := true, generatesRecord := true,
      columns := [{ id, output := .record }] }]
  relations := []

def catalog (id : String) : Catalog :=
  ⟨(definition id).tables.map (Catalog.assemble [])⟩

theorem build_definition (id : String) : Catalog.build (definition id) = .ok (catalog id) :=
  rfl

def spaced : Archive where
  catalog := catalog "dye colour"
  store   := (Store.ofTables (catalog "dye colour") [
    ("lot", [{ id := ⟨1⟩, cells := [("dye colour", .plain "red")] }])]).toOption.getD {}

def lot : Row :=
  (spaced.store.rows "lot").head (by decide)

def report : Except ExportError Exported :=
  exportReport spaced (.named "LAB" "ORG") ⟨⟨"m"⟩, 0⟩ lot { opType := .insert }

end Vats

-- Any id may be that of a column in records. The column is read as it is written, whatever its text
-- is and wherever it stands, if and only if the id is legible.
theorem record_ids_keep_iff (id : String) :
    (∃ d c, Catalog.build d = .ok c ∧
      ∃ t ∈ c.tables, ∃ column ∈ t.columnsWith .record, column.id = id) ∧
    ∀ s : Surroundings, (∀ text, s.Keeps id text) ↔ Legible (bytes id) := by
  refine ⟨⟨_, _, Vats.build_definition id, _, List.mem_cons_self, _, List.mem_cons_self, rfl⟩, ?_⟩
  exact fun s => ⟨Surroundings.legible_of_keeps, fun h _ => Surroundings.keeps_of_legible h⟩

-- A space ends the name of a start tag, but not that of an end tag.
open Vats in
theorem exported_id_spaced :
    (¬ ∀ d c, Catalog.build d = .ok c → ∀ t ∈ c.tables, ∀ column ∈ t.columnsWith .record,
      ∀ (s : Surroundings) (text : String), s.Keeps column.id text) ∧
    ∃ e p, report = .ok e ∧ e.message.dataset = some [[("dye colour", "red")]] ∧
      (Parser.ofBytes (bytes e.document)).all .verbatim =
        ([], some ⟨375, .xml (.mismatchedEnd "dye" "dye colour")⟩, p) := by
  constructor
  case left =>
    intro h
    have hkeeps := h _ _ (build_definition "dye colour") _ List.mem_cons_self _ List.mem_cons_self
      ⟨0, 0, [], [], [], fun _ => none, fun _ => none⟩
    have hspace := (Surroundings.legible_of_keeps hkeeps).unspaced 0x20 (by decide +kernel)
    cases hspace
  case right =>
    have hset : report.toOption.map (·.message.dataset) =
        some (some [[("dye colour", "red")]]) := by decide +kernel
    have hread : report.toOption.map (fun e =>
        let run := (Parser.ofBytes (bytes e.document)).all Assembler.verbatim
        (run.1, run.2.1)) =
          some ([], some ⟨375, .xml (.mismatchedEnd "dye" "dye colour")⟩) := by
      decide +kernel
    obtain ⟨e, he⟩ := exists_eq_ok (x := report) (by decide +kernel)
    rw [he] at hset hread
    rcases hall : (Parser.ofBytes (bytes e.document)).all Assembler.verbatim with ⟨given, error, p⟩
    simp only [Except.toOption, Option.map_some, Option.some.injEq, hall] at hset hread
    cases hread
    exact ⟨e, p, he, hset, hall⟩

end ReportExchange
