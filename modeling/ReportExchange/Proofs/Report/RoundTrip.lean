import ReportExchange.Proofs.Intake.Calls
import ReportExchange.Proofs.Intake.Rows
import ReportExchange.Proofs.Report.Message
import ReportExchange.Proofs.Report.Provenance

namespace ReportExchange

open Text

-- What is known of the fields of a record as a whole.
structure Fields.Exported (a : Archive) (fields : Fields) : Prop where
  nodup   : (fields.map (·.1)).Nodup
  columns : ∀ f ∈ fields, ∃ t ∈ a.catalog.tables, ∃ c ∈ t.columnsWith .record, c.id = f.1

theorem Visit.exported_fields {a : Archive} {v : Visit} (h : a.Sound) (held : a.Holds v.row)
    (hi : v.inherited.Exported a) : v.fields.Exported a where
  nodup := v.extend_own ▸ Fields.nodup_extend hi.nodup (own_nodup (h.catalog.columns _ held.mem))
  columns f hf := by
    cases List.mem_append.mp hf
    case inl hf => exact hi.columns f (List.mem_filter.mp hf).1
    case inr hf =>
      obtain ⟨c, hc, ⟨ho, _⟩, rfl⟩ := mem_own_iff.mp hf
      exact ⟨_, held.mem, c, List.mem_filter.mpr ⟨hc, decide_eq_true ho⟩, rfl⟩

theorem Archive.Trail.exported_fields {a : Archive} {root : Row} (h : a.Sound)
    (held : a.Holds root) {trail : List Visit} (t : a.Trail root trail) :
    ∀ v ∈ trail, v.fields.Exported a := by
  induction t
  case root =>
    intro v hv
    rw [List.mem_singleton.mp hv]
    exact Visit.exported_fields h (held.visit []) ⟨List.nodup_nil, nofun⟩
  case down v above c t hc hi =>
    refine List.forall_mem_cons.mpr ⟨?_, hi⟩
    exact Visit.exported_fields h ((h.holds_below hc).visit _) (hi v List.mem_cons_self)

theorem exported_of_flatten {a : Archive} {root : Row} (h : a.Sound) (held : a.Holds root)
    {records : List Fields} (hf : flatten a root = .ok records) :
    ∀ fields ∈ records, fields.Exported a := by
  rw [flatten_eq h held] at hf
  cases hf
  intro fields hm
  have ⟨v, hv, e⟩ := List.mem_filterMap.mp hm
  have ⟨above, t⟩ := (Archive.mem_visits_iff h held).mp hv
  rw [Visit.record?] at e
  split at e
  case isFalse => cases e
  case isTrue  => cases e; exact t.exported_fields h held v List.mem_cons_self

section Reading

open Xml Xml.Element

theorem Message.named_toElement {m : Message}
    (h : ∀ results ∈ m.dataset, ∀ fields ∈ results, ∀ f ∈ fields, isName f.1) :
    m.toElement.Named := by
  have hh : NamedAll (m.header.map fun f => .leaf f.1.tag f.2) := by
    refine namedAll_iff.mpr (List.forall_mem_map.mpr fun f _ => ?_)
    rw [Named]
    cases f.1 <;> decide
  have ho : NamedAll (m.operation.map fun f => .leaf f.1.tag f.2) := by
    refine namedAll_iff.mpr (List.forall_mem_map.mpr fun f _ => ?_)
    rw [Named]
    cases f.1 <;> decide
  have hd : NamedAll (m.dataset.map fun results =>
      Element.branch Tag.dataset (results.map resultElement)).toList := by
    refine namedAll_iff.mpr fun e he => ?_
    have ⟨results, hr, e⟩ := Option.map_eq_some_iff.mp (Option.mem_toList.mp he)
    subst e
    rw [Named]
    refine ⟨by decide, namedAll_iff.mpr (List.forall_mem_map.mpr fun fields hf => ?_)⟩
    rw [resultElement, Named]
    refine ⟨by decide, namedAll_iff.mpr (List.forall_mem_map.mpr fun f hm => ?_)⟩
    rw [Named]
    exact h results hr fields hf f hm
  simp only [toElement, Named, NamedAll, hh, ho, hd]
  decide

-- Whatever makes records of the results, a written message reads as its own fields and results.
theorem all_document {Draft Record : Type} {a : Assembler Draft Record} {m : Message}
    {rs : List Record}
    (hn : ∀ results ∈ m.dataset, ∀ fields ∈ results, ∀ f ∈ fields, isName f.1)
    (h : List.Forall₂ (fun fields r => a.assemble fields = .ok r) (m.dataset.getD []) rs) :
    ∃ given p, (Parser.ofBytes (bytes m.document)).all a = (given, none, p) ∧
      given.map (·.1) = rs ∧ p.intake.header = recorded (fun _ => none) m.header ∧
      p.intake.operation = recorded (fun _ => none) m.operation := by
  have ht : Intake.Takes a {} (.aside :: events 0 m.toElement) rs _ :=
    .silent nofun rfl (Intake.takes_message m h)
  have ⟨given, p, hg, hm, hp⟩ :=
    Parser.all_ofReadings (readings_document (Message.named_toElement hn)) ht rfl
  exact ⟨given, p, hg, hm, by rw [hp], by rw [hp]⟩

end Reading

theorem forall₂_assemble {flat : Table} {records : List Fields}
    (hn : ∀ fields ∈ records, (fields.map (·.1)).Nodup)
    (hd : ∀ fields ∈ records, ∀ f ∈ fields, flat.declares f.1) :
    ∃ rows, List.Forall₂ (fun fields row => (rowAssembler flat none).assemble fields = .ok row ∧
      row.Carries flat fields) records rows :=
  exists_forall₂ fun fields hm => assemble_rowAssembler (hn fields hm) (hd fields hm)

-- A report that is exported and read again gives the rows that were exported, under the envelope that
-- was written.
theorem export_then_parse {a : Archive} {root : Row} {flat : Table} (h : a.Sound)
    (held : a.Holds root)
    (names : ∀ t ∈ a.catalog.tables, ∀ c ∈ t.columnsWith .record, Xml.isName c.id)
    (sender : Sender) (hv : sender.validate = .ok ()) (op : Operation)
    (ho : op.opType.carriesDataset) (stamp : Stamp)
    (hd : ∀ records, flatten a root = .ok records →
      ∀ fields ∈ records, ∀ f ∈ fields, flat.declares f.1) :
    ∃ e records given p, exportReport a sender stamp root op = .ok e ∧
      flatten a root = .ok records ∧ e.summary.records = records.length ∧
      (∀ fields ∈ records, (fields.map (·.1)).Nodup) ∧
      (Parser.ofBytes (bytes e.document)).all (rowAssembler flat none) = (given, none, p) ∧
      given.length = records.length ∧ List.Forall₂ (Row.Carries flat) records (given.map (·.1)) ∧
      e.message.header.map (·.1) = HeaderField.all ∧
      (∀ field value, p.intake.header field = some value ↔ (field, value) ∈ e.message.header) ∧
      (∀ field value, p.intake.operation field = some value ↔
        (field, value) ∈ e.message.operation) := by
  let records := (a.visits h root []).filterMap (·.record?)
  have hf : flatten a root = .ok records := flatten_eq h held
  have ⟨e, he, hm, _, hr, _⟩ := exportReport_eq h held hv ho stamp
  have hx := exported_of_flatten h held hf
  have hnodup : ∀ fields ∈ records, (fields.map (·.1)).Nodup :=
    fun fields hm => (hx fields hm).nodup
  have ⟨rows, hrows⟩ := forall₂_assemble hnodup (hd _ hf)
  have hset : e.message.dataset = some records := by rw [hm]
  have hnames : ∀ results ∈ e.message.dataset, ∀ fields ∈ results, ∀ f ∈ fields,
      Xml.isName f.1 := by
    intro results hres fields hfields f hff
    cases Option.some.inj (hset.symm.trans hres)
    have ⟨t, ht, c, hc, hid⟩ := (hx fields hfields).columns f hff
    exact hid ▸ names t ht c hc
  have hasm : List.Forall₂ (fun fields row => (rowAssembler flat none).assemble fields = .ok row)
      (e.message.dataset.getD []) rows := by
    rw [hset]
    exact hrows.imp fun _ _ hrow => hrow.1
  have ⟨given, p, hall, hgiven, hh, hop⟩ := all_document hnames hasm
  have hkeys : e.message.header.map (·.1) = HeaderField.all := by
    rw [hm]
    exact Message.keys_header sender stamp
  have hcarry : List.Forall₂ (Row.Carries flat) records (given.map (·.1)) := by
    rw [hgiven]
    exact hrows.imp fun _ _ hrow => hrow.2
  refine ⟨e, records, given, p, he, hf, hr, hnodup, hall, ?_, hcarry, hkeys, ?_, ?_⟩
  case refine_1 => rw [hcarry.length_eq, List.length_map]
  case refine_2 =>
    intro field value
    rw [hh]
    exact recorded_eq_some_iff (hkeys ▸ by decide)
  case refine_3 =>
    intro field value
    have hn : (e.message.operation.map (·.1)).Nodup := by
      rw [hm]
      exact Message.nodup_overrideOperation (Message.nodup_fields op)
    rw [hop]
    exact recorded_eq_some_iff hn

-- A table for the records of the wells.
def Plates.flat : Table where
  name            := "flat"
  columns         := [{ id := "grade" }, { id := "dye" }]
  children        := []
  parents         := []
  traversable     := false
  generatesRecord := false

open Plates in
theorem export_then_parse_plates :
    ∃ e records given p,
      exportReport archive (.named "LAB" "ORG") ⟨⟨"m"⟩, 0⟩ plate { opType := .insert } = .ok e ∧
      flatten archive plate = .ok records ∧
      (Parser.ofBytes (bytes e.document)).all (rowAssembler flat none) = (given, none, p) ∧
      List.Forall₂ (Row.Carries flat) records (given.map (·.1)) := by
  have hd : ∀ records, flatten archive plate = .ok records →
      ∀ fields ∈ records, ∀ f ∈ fields, flat.declares f.1 := by
    intro records hf
    have hw : flatten archive plate =
        .ok [[("grade", "A"), ("dye", "red")], [("grade", "A"), ("dye", "")]] := by
      decide +kernel
    rw [← Except.ok.inj (hw.symm.trans hf)]
    decide
  have ⟨e, records, given, p, he, hf, _, _, hall, _, hc, _⟩ := export_then_parse sound (by decide)
    (by decide) (.named "LAB" "ORG") (by decide) { opType := .insert } (by decide) ⟨⟨"m"⟩, 0⟩ hd
  exact ⟨e, records, given, p, he, hf, hall, hc⟩

end ReportExchange
