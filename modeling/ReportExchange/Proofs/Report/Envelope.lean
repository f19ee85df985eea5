import ReportExchange.Proofs.Envelope
import ReportExchange.Proofs.Report.Message
import ReportExchange.Proofs.Report.Visits
import ReportExchange.Proofs.Success
import ReportExchange.Report.Export

namespace ReportExchange

-- The code that a row states for a field in one of the columns, unless the column has failed.
def Row.stated (r : Row) (failed : List String) (cs : List Column) (tag : String) : Option String :=
  if (∃ c ∈ cs, c.id = tag) ∧ tag ∉ failed then r.code tag else none

namespace Row

variable {r : Row} {failed : List String} {cs : List Column} {c : Column} {tag : String}

theorem stated_singleton :
    r.stated failed [c] tag = if c.id = tag ∧ c.id ∉ failed then r.code c.id else none := by
  by_cases e : c.id = tag
  case pos =>
    subst e
    simp [stated]
  case neg => simp [stated, e]

-- Two columns of one name state the same, as a row has one cell for both.
theorem stated_cons (r : Row) (failed : List String) (c : Column) (cs : List Column) (tag : String) :
    r.stated failed (c :: cs) tag = (r.stated failed cs tag).or (r.stated failed [c] tag) := by
  simp only [stated, List.exists_mem_cons_iff, List.not_mem_nil, false_and, exists_false, or_false]
  by_cases hc : c.id = tag <;> by_cases hs : ∃ c ∈ cs, c.id = tag <;> by_cases hf : tag ∈ failed <;>
    simp [hc, hs, hf]

end Row

namespace Message

variable {root : Row} {failed : List String}

section Values

variable {κ : Type} [DecidableEq κ]

-- The value of a field.
def value? (fields : List (κ × String)) (field : κ) : Option String :=
  (fields.find? (·.1 = field)).map (·.2)

theorem value?_eq_some_iff {fields : List (κ × String)} (hn : (fields.map (·.1)).Nodup) {field : κ}
    {value : String} : value? fields field = some value ↔ (field, value) ∈ fields := by
  rw [value?, Option.map_eq_some_iff]
  constructor
  case mp =>
    rintro ⟨⟨k, v⟩, hf, rfl⟩
    obtain ⟨hm, rfl⟩ := (find?_key_eq_some_iff hn).mp hf
    exact hm
  case mpr => exact fun hm => ⟨(field, value), find?_key_eq_some hn hm, rfl⟩

theorem isSome_value?_iff {fields : List (κ × String)} {field : κ} :
    (value? fields field).isSome ↔ field ∈ fields.map (·.1) := by
  simp [value?, List.find?_isSome]

theorem value?_replaced (fields : List (κ × String)) (field : κ) (value : String) (k : κ) :
    value? (fields.map fun slot => if slot.1 = field then (field, value) else slot) k =
      if k = field then (value? fields k).map fun _ => value else value? fields k := by
  have hkey (slot : κ × String) :
      (if slot.1 = field then (field, value) else slot).1 = slot.1 := by
    by_cases h : slot.1 = field <;> simp [h]
  simp only [value?, List.find?_map, Function.comp_def, hkey]
  cases hf : fields.find? (·.1 = k)
  case none => simp
  case some slot =>
    have hk : slot.1 = k :=
      of_decide_eq_true (List.find?_some (p := fun s : κ × String => s.1 = k) hf)
    by_cases e : k = field <;> simp [hk, e]

section Stating

variable {tag : κ → String} {ofTag? : String → Option κ}
  {put : κ → String → List (κ × String) → List (κ × String)} {held : List (κ × String) → Prop}
  {fields : List (κ × String)}

-- Fields that columns can state: a column is one of them by its name, and its value is put in the
-- place of another.
structure Statable (tag : κ → String) (ofTag? : String → Option κ)
    (put : κ → String → List (κ × String) → List (κ × String))
    (held : List (κ × String) → Prop) : Prop where
  found : ∀ text field, ofTag? text = some field ↔ tag field = text
  keeps : ∀ field value fields, held fields → held (put field value fields)
  value : ∀ field value fields, held fields → ∀ k,
    value? (put field value fields) k = if k = field then some value else value? fields k

-- One column of the root, which may state a field.
def stating (root : Row) (failed : List String) (ofTag? : String → Option κ)
    (put : κ → String → List (κ × String) → List (κ × String)) (fields : List (κ × String))
    (c : Column) : List (κ × String) :=
  match ofTag? c.id, root.code c.id with
  | some field, some code => if c.id ∈ failed then fields else put field code fields
  | _, _ => fields

theorem value?_stating (h : Statable tag ofTag? put held) (root : Row) (failed : List String)
    (c : Column) (hf : held fields) :
    held (stating root failed ofTag? put fields c) ∧
    ∀ k, value? (stating root failed ofTag? put fields c) k =
      (root.stated failed [c] (tag k)).or (value? fields k) := by
  rw [stating]
  cases ho : ofTag? c.id
  case none =>
    refine ⟨hf, fun k => ?_⟩
    have hne : c.id ≠ tag k := fun e => by cases ho.symm.trans ((h.found _ _).mpr e.symm)
    rw [Row.stated_singleton, if_neg fun hs => hne hs.1, Option.none_or]
  case some field =>
    have hk (k : κ) : c.id = tag k ↔ k = field := by
      rw [eq_comm, ← h.found, ho, Option.some.injEq, eq_comm]
    simp only [Row.stated_singleton, hk]
    cases root.code c.id
    case none => exact ⟨hf, fun k => by simp⟩
    case some code =>
      dsimp only
      split
      case isTrue hc  => exact ⟨hf, fun k => by simp [hc]⟩
      case isFalse hc =>
        refine ⟨h.keeps field code fields hf, fun k => ?_⟩
        rw [h.value field code fields hf]
        by_cases e : k = field <;> simp [e, hc]

theorem value?_foldl_stating (h : Statable tag ofTag? put held) (root : Row)
    (failed : List String) (cs : List Column) (hf : held fields) (k : κ) :
    value? (cs.foldl (stating root failed ofTag? put) fields) k =
      (root.stated failed cs (tag k)).or (value? fields k) := by
  induction cs generalizing fields
  case nil => simp [Row.stated]
  case cons c cs hi =>
    have ⟨hs, hv⟩ := value?_stating h root failed c hf
    rw [List.foldl_cons, hi hs, hv, root.stated_cons failed c cs, Option.or_assoc]

end Stating

end Values

section Header

-- In a header, where every field has its place.
def replace (field : HeaderField) (value : String) (header : List (HeaderField × String)) :
    List (HeaderField × String) :=
  header.map fun slot => if slot.1 = field then (field, value) else slot

theorem statable_header :
    Statable HeaderField.tag HeaderField.ofTag? replace fun header =>
      ∀ field, field ∈ header.map (·.1) where
  found _ _ := HeaderField.ofTag?_eq_some_iff
  keeps field value header h := by
    rwa [replace, keys_replaced]
  value field value header h k := by
    have ⟨old, ho⟩ := Option.isSome_iff_exists.mp (isSome_value?_iff.mpr (h k))
    rw [replace, value?_replaced, ho]
    rfl

theorem overrideHeader_eq (header : List (HeaderField × String)) :
    overrideHeader root failed header = (root.table.columnsWith .header).foldl
      (stating root failed HeaderField.ofTag? replace) header := by
  rw [overrideHeader]
  congr 1
  funext header c
  rw [stating]
  cases HeaderField.ofTag? c.id <;> cases root.code c.id <;> rfl

theorem value?_overrideHeader {header : List (HeaderField × String)}
    (h : ∀ field, field ∈ header.map (·.1)) (field : HeaderField) :
    value? (overrideHeader root failed header) field =
      (root.stated failed (root.table.columnsWith .header) field.tag).or (value? header field) := by
  rw [overrideHeader_eq]
  exact value?_foldl_stating statable_header root failed _ h field

end Header

section Operation

theorem value?_setField (field : OperationField) (value : String)
    (fields : List (OperationField × String)) (k : OperationField) :
    value? (setField field value fields) k = if k = field then some value else value? fields k := by
  rw [setField]
  by_cases h : fields.any (·.1 = field)
  case pos =>
    rw [if_pos h, value?_replaced]
    by_cases e : k = field
    case neg => simp [e]
    case pos =>
      subst e
      have hs : (value? fields k).isSome := by simpa [value?, List.find?_isSome] using h
      obtain ⟨old, ho⟩ := Option.isSome_iff_exists.mp hs
      simp [ho]
  case neg =>
    rw [if_neg h]
    have hn : fields.find? (·.1 = field) = none := by
      rw [← Option.not_isSome_iff_eq_none, List.find?_isSome]
      simpa using h
    by_cases e : k = field
    case pos =>
      subst e
      simp [value?, List.find?_append, hn]
    case neg => simp [value?, List.find?_append, e, Ne.symm e]

theorem value?_inOrder (fields : List (OperationField × String)) (k : OperationField) :
    value? (inOrder fields) k = value? fields k := by
  have hf (field : OperationField) : (fields.filter (·.1 = field)).find? (·.1 = k) =
      if field = k then fields.find? (·.1 = k) else none := by
    rw [List.find?_filter]
    by_cases e : field = k
    case pos => simp [e]
    case neg =>
      rw [if_neg e, List.find?_eq_none]
      intro slot _ hs
      have ⟨h₁, h₂⟩ := of_decide_eq_true hs
      exact e ((of_decide_eq_true h₁).symm.trans (of_decide_eq_true h₂))
  rw [value?, value?, inOrder, List.find?_flatMap]
  simp only [hf]
  cases k <;> simp only [OperationField.all, List.findSome?, reduceCtorEq, if_true, if_false]
  all_goals cases fields.find? _ <;> rfl

theorem statable_operation :
    Statable OperationField.tag OperationField.ofTag? setField fun _ => True where
  found _ _ := OperationField.ofTag?_eq_some_iff
  keeps _ _ _ _ := trivial
  value field value fields _ := value?_setField field value fields

theorem overrideOperation_eq (fields : List (OperationField × String)) :
    overrideOperation root failed fields = inOrder ((root.table.columnsWith .operation).foldl
      (stating root failed OperationField.ofTag? setField) fields) := by
  rw [overrideOperation]
  congr 2
  funext fields c
  rw [stating]
  cases OperationField.ofTag? c.id <;> cases root.code c.id <;> rfl

theorem value?_overrideOperation (fields : List (OperationField × String))
    (field : OperationField) :
    value? (overrideOperation root failed fields) field =
      (root.stated failed (root.table.columnsWith .operation) field.tag).or
        (value? fields field) := by
  rw [overrideOperation_eq, value?_inOrder]
  exact value?_foldl_stating statable_operation root failed _ trivial field

end Operation

end Message

-- The code that the root of a report states for a field of the envelope, once it is computed.
def Archive.stated (a : Archive) (root : Row) (output : Output) (tag : String) : Option String :=
  (a.resolved root).1.stated (Walk.failedColumns (a.resolved root).2)
    (root.table.columnsWith output) tag

section Exported

variable {a : Archive} {sender : Sender} {stamp : Stamp} {root : Row} {op : Operation}
  {e : Exported}

-- Whatever else an export does, this is the envelope that it writes.
theorem envelope_of_exportReport (h : exportReport a sender stamp root op = .ok e) :
    e.summary.messageId = stamp.id ∧
    e.message.header = Message.overrideHeader (a.resolved root).1
      (Walk.failedColumns (a.resolved root).2) (sender.header stamp) ∧
    e.message.operation = Message.overrideOperation (a.resolved root).1
      (Walk.failedColumns (a.resolved root).2) op.fields ∧
    e.message.dataset.isSome = op.opType.carriesDataset := by
  rw [exportReport] at h
  split at h
  case h_1 => cases h
  case h_2 =>
    dsimp only at h
    split at h
    case isFalse hn =>
      cases h
      exact ⟨rfl, rfl, rfl, (Bool.eq_false_iff.mpr hn).symm⟩
    case isTrue hc =>
      split at h
      case h_2 => cases h
      case h_1 =>
        cases h
        exact ⟨rfl, rfl, rfl, hc.symm⟩

theorem keys_exported_header (h : exportReport a sender stamp root op = .ok e) :
    e.message.header.map (·.1) = HeaderField.all := by
  have ⟨_, hh, _⟩ := envelope_of_exportReport h
  rw [hh]
  exact Message.keys_header sender stamp

theorem nodup_exported_operation (h : exportReport a sender stamp root op = .ok e) :
    (e.message.operation.map (·.1)).Nodup := by
  have ⟨_, _, ho, _⟩ := envelope_of_exportReport h
  rw [ho]
  exact Message.nodup_overrideOperation (Message.nodup_fields op)

-- A header field has the code that the root states, or else the value that the sender gives.
theorem mem_exported_header_iff (h : exportReport a sender stamp root op = .ok e)
    {field : HeaderField} {text : String} :
    (field, text) ∈ e.message.header ↔
      (a.stated root .header field.tag).or (Message.value? (sender.header stamp) field) =
        some text := by
  have ⟨_, hh, _⟩ := envelope_of_exportReport h
  have hall (field : HeaderField) : field ∈ (sender.header stamp).map (·.1) := by
    rw [show (sender.header stamp).map (·.1) = HeaderField.all from rfl]
    cases field <;> decide
  rw [← Message.value?_eq_some_iff (keys_exported_header h ▸ by decide), hh,
    Message.value?_overrideHeader hall, (Archive.resolved_spares root).table]
  rfl

-- A field of the operation block has the code that the root states, or else its value in the
-- operation itself, if there is any.
theorem mem_exported_operation_iff (h : exportReport a sender stamp root op = .ok e)
    {field : OperationField} {text : String} :
    (field, text) ∈ e.message.operation ↔
      (a.stated root .operation field.tag).or (Message.value? op.fields field) = some text := by
  have ⟨_, _, ho, _⟩ := envelope_of_exportReport h
  rw [← Message.value?_eq_some_iff (nodup_exported_operation h), ho,
    Message.value?_overrideOperation, (Archive.resolved_spares root).table]
  rfl

-- The identity that an acknowledgement is asked for by is the one that the message was given. It is
-- the one that is written as well, unless the root states another in its place.
theorem exported_messageId (h : exportReport a sender stamp root op = .ok e) :
    e.summary.messageId = stamp.id ∧
    e.message.header.map (·.1) = HeaderField.all ∧
    (∀ text, (.messageId, text) ∈ e.message.header ↔
      text = (a.stated root .header "messageId").getD e.summary.messageId.text) ∧
    ((.messageId, e.summary.messageId.text) ∈ e.message.header ↔
      ∀ code, a.stated root .header "messageId" = some code →
        code = e.summary.messageId.text) := by
  obtain ⟨hi, _⟩ := envelope_of_exportReport h
  have hmem (text : String) : (.messageId, text) ∈ e.message.header ↔
      text = (a.stated root .header "messageId").getD e.summary.messageId.text := by
    have hg : Message.value? (sender.header stamp) .messageId = some stamp.id.text := rfl
    have ht : HeaderField.messageId.tag = "messageId" := rfl
    rw [mem_exported_header_iff h, hg, hi, ht]
    cases a.stated root .header "messageId" <;> simp [eq_comm]
  refine ⟨hi, keys_exported_header h, hmem, ?_⟩
  rw [hmem]
  cases a.stated root .header "messageId" <;> simp [eq_comm]

end Exported

-- Two lots, one of which brings values for its own envelope.
namespace Lots

def definition : CatalogDefinition where
  tables := [
    { name := "lot", traversable := true, generatesRecord := true,
      columns := [
        { id := "messageId", output := .header },
        { id := "opType", output := .operation },
        { id := "dye", output := .record }] }]
  relations := []

def records : List (String × List Record) := [
  ("lot", [
    { id := ⟨1⟩, cells := [("dye", .plain "red")] },
    { id := ⟨2⟩, cells := [("messageId", .plain "M-1"), ("opType", .plain "Submit")] }])]

def catalog : Catalog :=
  (Catalog.build definition).toOption.getD ⟨[]⟩

def archive : Archive where
  catalog := catalog
  store   := (Store.ofTables catalog records).toOption.getD {}

def plain : Row :=
  (archive.store.rows "lot").head (by decide)

def stating : Row :=
  (archive.store.rows "lot").getLast (by decide)

theorem sound : archive.Sound :=
  ⟨⟨definition, by decide⟩, by decide⟩

def sender : Sender :=
  .named "LAB" "ORG"

def stamp : Stamp :=
  ⟨⟨"m"⟩, 0⟩

end Lots

open Lots in
theorem exported_messageId_lots :
    ∃ e, exportReport archive sender stamp plain { opType := .insert } = .ok e ∧
      (.messageId, e.summary.messageId.text) ∈ e.message.header := by
  obtain ⟨e, he⟩ := exists_eq_ok (x := exportReport archive sender stamp plain { opType := .insert })
    (by decide +kernel)
  refine ⟨e, he, (exported_messageId he).2.2.2.mpr fun code hc => ?_⟩
  have hn : archive.stated plain .header "messageId" = none := by decide +kernel
  cases hn.symm.trans hc

-- A header column for the identity takes the place of the one that the message was given.
open Lots in
theorem exported_messageId_overridden :
    ¬ ∀ (a : Archive) (sender : Sender) (stamp : Stamp) (root : Row) (op : Operation)
      (e : Exported), a.Sound → a.Holds root → exportReport a sender stamp root op = .ok e →
      (.messageId, e.summary.messageId.text) ∈ e.message.header := by
  intro h
  obtain ⟨e, he⟩ := exists_eq_ok
    (x := exportReport archive sender stamp Lots.stating { opType := .insert }) (by decide +kernel)
  have hm := mem_exported_header_iff he |>.mp (h _ _ _ _ _ e sound (by decide) he)
  have hs : archive.stated Lots.stating .header HeaderField.messageId.tag = some "M-1" := by
    decide +kernel
  rw [hs, (envelope_of_exportReport he).1] at hm
  exact absurd hm (by decide)

end ReportExchange
