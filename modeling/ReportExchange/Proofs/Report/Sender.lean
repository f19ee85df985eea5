import Mathlib.Data.List.TakeWhile
import ReportExchange.Proofs.Report.Envelope

namespace ReportExchange

namespace Text

theorem trim_eq_empty_iff {s : String} : trim s = "" ↔ allBlank s := by
  have ht : trim s = "" ↔ trimmed s.toList = [] := String.ofList_eq_empty_iff
  rw [ht, trimmed, dropBlankEnd, List.reverse_eq_nil_iff, List.dropWhile_eq_nil_iff, allBlank,
    List.all_eq_true]
  simp only [List.mem_reverse]
  constructor
  case mpr => exact fun h c hc => h c ((List.dropWhile_suffix isBlank).subset hc)
  case mp =>
    -- The first character that is left is not blank, so that there is none.
    intro h c hc
    have hn : s.toList.dropWhile isBlank = [] := by
      by_contra hne
      have hh := List.head_dropWhile_not isBlank hne
      simp [h _ (List.head_mem hne)] at hh
    exact List.dropWhile_eq_nil_iff.mp hn c hc

end Text

namespace Sender

theorem isStated_iff {s : Sender} {field : HeaderField} :
    s.isStated field ↔ ∃ value, s.value field = some value ∧ Text.trim value ≠ "" := by
  rw [isStated]
  cases s.value field <;> simp [Text.trim_eq_empty_iff]

-- A sender is valid if it gives every field that is neither generated nor has a default.
theorem validate_eq_ok_iff {s : Sender} :
    s.validate = .ok () ↔ ∀ field ∈ required, ∃ value,
      s.value field = some value ∧ Text.trim value ≠ "" := by
  simp only [← isStated_iff, validate]
  constructor
  case mp =>
    intro h field hf
    cases hs : required.find? (!s.isStated ·) <;> rw [hs] at h
    case some => cases h
    case none => simpa using List.find?_eq_none.mp hs field hf
  case mpr =>
    intro h
    have hs : required.find? (!s.isStated ·) = none :=
      List.find?_eq_none.mpr fun field hf => by simp [h field hf]
    rw [hs]

-- What a header says for such a field is what the sender gives.
theorem value?_header {s : Sender} {field : HeaderField} (hf : field ∈ required) (stamp : Stamp) :
    Message.value? (s.header stamp) field = some ((s.value field).getD "") := by
  have hr : required = [.senderId, .senderOrg] := by decide
  rw [hr] at hf
  match field with
  | .senderId | .senderOrg => rfl
  | .messageId | .created | .protocolVersion => simp at hf

end Sender

section Exported

variable {a : Archive} {sender : Sender} {stamp : Stamp} {root : Row} {op : Operation}
  {e : Exported} {field : HeaderField}

theorem validate_of_exportReport (h : exportReport a sender stamp root op = .ok e) :
    sender.validate = .ok () := by
  rw [exportReport] at h
  split at h
  case h_1    => cases h
  case h_2 hv => exact hv

-- The fields of the sender are written with what the root states for them, or else with what is
-- configured, which is not blank. They are blank in a message exactly if the root states a blank.
theorem exported_sender (h : exportReport a sender stamp root op = .ok e)
    (hf : field = .senderId ∨ field = .senderOrg) :
    e.message.header.map (·.1) = HeaderField.all ∧
    ∃ given, sender.value field = some given ∧ Text.trim given ≠ "" ∧
      (∀ text, (field, text) ∈ e.message.header ↔
        text = (a.stated root .header field.tag).getD given) ∧
      ((∃ text, (field, text) ∈ e.message.header ∧ Text.trim text = "") ↔
        ∃ code, a.stated root .header field.tag = some code ∧ Text.trim code = "") := by
  have hr : field ∈ Sender.required := by
    cases hf
    case inl e => exact e ▸ by decide
    case inr e => exact e ▸ by decide
  obtain ⟨given, hg, hb⟩ := Sender.validate_eq_ok_iff.mp (validate_of_exportReport h) field hr
  have hmem (text : String) : (field, text) ∈ e.message.header ↔
      text = (a.stated root .header field.tag).getD given := by
    rw [mem_exported_header_iff h, Sender.value?_header hr, hg]
    cases a.stated root .header field.tag <;> simp [eq_comm]
  refine ⟨keys_exported_header h, given, hg, hb, hmem, ?_⟩
  simp only [hmem, exists_eq_left]
  cases a.stated root .header field.tag <;> simp [hb]

end Exported

-- Lots that may come from a depot of their own. One of them names a depot without a name.
namespace Depots

def definition : CatalogDefinition where
  tables := [
    { name := "lot", traversable := true, generatesRecord := true,
      columns := [
        { id := "senderId", codeFormula := some "%depot.code", output := .header },
        { id := "depot" },
        { id := "dye", output := .record }] }]
  relations := []

def records : List (String × List Record) := [
  ("lot", [
    { id := ⟨1⟩, cells := [("depot", .plain "NORTH"), ("dye", .plain "red")] },
    { id := ⟨2⟩, cells := [("depot", .plain " "), ("dye", .plain "blue")] }])]

def catalog : Catalog :=
  (Catalog.build definition).toOption.getD ⟨[]⟩

def archive : Archive where
  catalog := catalog
  store   := (Store.ofTables catalog records).toOption.getD {}

def named : Row :=
  (archive.store.rows "lot").head (by decide)

def nameless : Row :=
  (archive.store.rows "lot").getLast (by decide)

theorem sound : archive.Sound :=
  ⟨⟨definition, by decide⟩, by decide⟩

end Depots

open Depots in
theorem exported_sender_depot :
    ∃ e, exportReport archive (.named "LAB" "ORG") ⟨⟨"m"⟩, 0⟩ named { opType := .insert } = .ok e ∧
      (.senderId, "NORTH") ∈ e.message.header ∧ (.senderOrg, "ORG") ∈ e.message.header := by
  obtain ⟨e, he⟩ := exists_eq_ok
    (x := exportReport archive (.named "LAB" "ORG") ⟨⟨"m"⟩, 0⟩ named { opType := .insert })
    (by decide +kernel)
  obtain ⟨_, _, _, _, hid, _⟩ := exported_sender he (.inl rfl)
  obtain ⟨_, org, hg, _, horg, _⟩ := exported_sender he (.inr rfl)
  have hs : archive.stated named .header HeaderField.senderId.tag = some "NORTH" := by
    decide +kernel
  have hn : archive.stated named .header HeaderField.senderOrg.tag = none := by decide +kernel
  refine ⟨e, he, (hid "NORTH").mpr (by rw [hs]; rfl), (horg "ORG").mpr ?_⟩
  rw [hn]
  exact Option.some.inj hg

-- A blank that the root states goes out as the sender of the message.
open Depots in
theorem exported_sender_blank :
    ¬ ∀ (a : Archive) (sender : Sender) (stamp : Stamp) (root : Row) (op : Operation)
      (e : Exported), a.Sound → a.Holds root → exportReport a sender stamp root op = .ok e →
      ∀ field text, field = .senderId ∨ field = .senderOrg → (field, text) ∈ e.message.header →
        Text.trim text ≠ "" := by
  intro h
  obtain ⟨e, he⟩ := exists_eq_ok
    (x := exportReport archive (.named "LAB" "ORG") ⟨⟨"m"⟩, 0⟩ nameless { opType := .insert })
    (by decide +kernel)
  have hs : archive.stated nameless .header HeaderField.senderId.tag = some " " := by
    decide +kernel
  have hm : (HeaderField.senderId, " ") ∈ e.message.header :=
    (mem_exported_header_iff he).mpr (by rw [hs]; rfl)
  exact h _ _ _ _ _ e sound (by decide) he _ _ (.inl rfl) hm (by decide)

end ReportExchange
