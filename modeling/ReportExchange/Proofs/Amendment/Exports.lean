import ReportExchange.Proofs.Amendment.Application
import ReportExchange.Proofs.Report.RoundTrip

namespace ReportExchange

open Text Comparison

namespace Difference

variable {a : Archive} {root : Row} {records first second : List Fields} {rows : List Comparison}
variable {fields : Fields} {c : Comparison}

-- The identity of a record.
def recordId? (fields : Fields) : Option String :=
  (fields.get? Tag.rowId).map trim

-- A report whose records can be compared: they have identities, and no column of theirs is taken for
-- a statement about the row.
structure Comparable (a : Archive) (root : Row) (records : List Fields) : Prop where
  sound   : a.Sound
  held    : a.Holds root
  names   : ∀ t ∈ a.catalog.tables, ∀ c ∈ t.columnsWith .record, Xml.isName c.id
  plain   : ∀ t ∈ a.catalog.tables, ∀ c ∈ t.columnsWith .record,
    c.id ≠ Tag.nullified ∧ c.id ≠ Tag.amendmentType
  flatten : flatten a root = .ok records
  ids     : ∀ fields ∈ records, ∃ id ∈ recordId? fields, id ≠ ""
  nodup   : (records.map recordId?).Nodup

-- How two versions of a report differ in the record of an identity.
def Reports (first second : List Fields) (id : String) : AmendmentType → Prop
  | .added    => some id ∉ first.map recordId? ∧ some id ∈ second.map recordId?
  | .modified => ∃ f ∈ first, ∃ g ∈ second, recordId? f = some id ∧ recordId? g = some id ∧
    unversioned f ≠ unversioned g
  | .deleted  => some id ∈ first.map recordId? ∧ some id ∉ second.map recordId?

instance (first second : List Fields) (id : String) :
    (kind : AmendmentType) → Decidable (Reports first second id kind)
  | .added    => inferInstanceAs (Decidable (_ ∧ _))
  | .modified => inferInstanceAs (Decidable (∃ f ∈ first, ∃ g ∈ second, _ ∧ _ ∧ _))
  | .deleted  => inferInstanceAs (Decidable (_ ∧ _))

-- The row that a record is read as.
structure IsRowOf (fields : Fields) (c : Comparison) : Prop where
  rowId     : c.rowId = recordId? fields
  nullified : c.nullified = false
  content   : c.content = fragmentsOf (unversioned fields)

theorem IsRowOf.differs_iff {f g : Fields} {c d : Comparison} (h : IsRowOf f c)
    (h' : IsRowOf g d) : Differs c d ↔ unversioned f ≠ unversioned g := by
  rw [Differs, h.nullified, h'.nullified, h.content, h'.content]
  simp [fragmentsOf_injective.eq_iff]

section Exports

variable (h : Comparable a root records)

include h

theorem Comparable.exported : ∀ fields ∈ records, fields.Exported a :=
  exported_of_flatten h.sound h.held h.flatten

theorem Comparable.plain_record (hf : fields ∈ records) : Plain fields := by
  intro f hm
  obtain ⟨t, ht, c, hc, hid⟩ := (h.exported fields hf).columns f hm
  exact hid ▸ h.plain t ht c hc

theorem Comparable.exists_row (hf : fields ∈ records) :
    ∃ c, Comparison.assembler.assemble fields = .ok c ∧ IsRowOf fields c := by
  obtain ⟨c, hc, hid, hn, hcontent⟩ :=
    assemble_plain (h.plain_record hf) (h.exported fields hf).nodup
  obtain ⟨id, hm, hne⟩ := h.ids fields hf
  refine ⟨c, hc, ?_, hn, hcontent⟩
  have hm : (fields.get? Tag.rowId).map trim = some id := hm
  rw [hid, recordId?, hm]
  simp [Option.filter_some, hne]

-- The document of a report is read as the rows of its records.
theorem Comparable.isParsed_export {sender : Sender} {op : Operation}
    (hv : sender.validate = .ok ()) (ho : op.opType.carriesDataset) (stamp : Stamp) :
    ∃ e rows, exportReport a sender stamp root op = .ok e ∧
      IsParsed (bytes e.document) rows ∧ List.Forall₂ IsRowOf records rows := by
  obtain ⟨e, he, hm, _⟩ := exportReport_eq h.sound h.held hv ho stamp
  have hset : e.message.dataset = some records := by
    rw [hm]
    exact congrArg some (Except.ok.inj ((flatten_eq h.sound h.held).symm.trans h.flatten))
  obtain ⟨rows, hrows⟩ := exists_forall₂ fun fields hf => h.exists_row hf
  have hnames : ∀ results ∈ e.message.dataset, ∀ fields ∈ results, ∀ f ∈ fields,
      Xml.isName f.1 := by
    intro results hr fields hf f hm
    cases Option.some.inj (hset.symm.trans hr)
    obtain ⟨t, ht, c, hc, hid⟩ := (h.exported fields hf).columns f hm
    exact hid ▸ h.names t ht c hc
  have hasm : List.Forall₂ (fun fields c => Comparison.assembler.assemble fields = .ok c)
      (e.message.dataset.getD []) rows := by
    rw [hset]
    exact hrows.imp fun _ _ hrow => hrow.1
  obtain ⟨given, p, hall, hg, _⟩ := all_document hnames hasm
  exact ⟨e, rows, he, ⟨given, p, hall, hg⟩, hrows.imp fun _ _ hrow => hrow.2⟩

theorem Comparable.keyed (hr : List.Forall₂ IsRowOf records rows) : Keyed rows where
  ids c hc := by
    obtain ⟨fields, hf, hrow⟩ := exists_of_mem_forall₂ hr hc
    obtain ⟨id, hid, _⟩ := h.ids fields hf
    rw [hrow.rowId, Option.mem_def.mp hid]
    simp
  nodup := by
    rw [map_eq_of_forall₂ hr fun _ _ hrow => hrow.rowId]
    exact h.nodup

end Exports

section Versions

variable {old new : List Comparison}

theorem amends_iff_reports {id : String} {kind : AmendmentType}
    (ho : List.Forall₂ IsRowOf first old) (hn : List.Forall₂ IsRowOf second new) :
    Amends old new (some id) kind ↔ Reports first second id kind := by
  have hold : old.map (·.rowId) = first.map recordId? :=
    map_eq_of_forall₂ ho fun _ _ hrow => hrow.rowId
  have hnew : new.map (·.rowId) = second.map recordId? :=
    map_eq_of_forall₂ hn fun _ _ hrow => hrow.rowId
  cases kind
  case added   => rw [Amends, Reports, hold, hnew]
  case deleted => rw [Amends, Reports, hold, hnew]
  case modified =>
    constructor
    case mp =>
      rintro ⟨c, hc, d, hd, hid, hid', hne⟩
      obtain ⟨f, hf, hrow⟩ := exists_of_mem_forall₂ ho hc
      obtain ⟨g, hg, hrow'⟩ := exists_of_mem_forall₂ hn hd
      exact ⟨f, hf, g, hg, hrow.rowId ▸ hid, hrow'.rowId ▸ hid', (hrow.differs_iff hrow').mp hne⟩
    case mpr =>
      rintro ⟨f, hf, g, hg, hid, hid', hne⟩
      obtain ⟨c, hc, hrow⟩ := exists_of_mem_forall₂ ho.flip hf
      obtain ⟨d, hd, hrow'⟩ := exists_of_mem_forall₂ hn.flip hg
      exact ⟨c, hc, d, hd, hrow.rowId.trans hid, hrow'.rowId.trans hid',
        (hrow.differs_iff hrow').mpr hne⟩

theorem Keyed.exists_id (h : Keyed rows) {id : Option String} (hm : id ∈ rows.map (·.rowId)) :
    ∃ x, id = some x := by
  obtain ⟨c, hc, rfl⟩ := List.mem_map.mp hm
  exact Option.ne_none_iff_exists'.mp (h.ids c hc)

-- Every amendment is about an identity.
theorem Amends.exists_id {id : Option String} {kind : AmendmentType} (ho : Keyed old)
    (hn : Keyed new) (h : Amends old new id kind) : ∃ x, id = some x := by
  cases kind
  case added   => exact hn.exists_id h.2
  case deleted => exact ho.exists_id h.1
  case modified =>
    obtain ⟨c, hc, _, _, hid, _⟩ := h
    exact ho.exists_id (hid ▸ List.mem_map_of_mem hc)

-- Between equal records there is nothing to report.
theorem not_reports_self {id : String} {kind : AmendmentType}
    (hn : (records.map recordId?).Nodup) : ¬Reports records records id kind := by
  cases kind
  case added   => exact fun h => h.1 h.2
  case deleted => exact fun h => h.2 h.1
  case modified =>
    rintro ⟨f, hf, g, hg, hid, hid', hne⟩
    exact hne (congrArg unversioned (List.inj_on_of_nodup_map hn hf hg (hid.trans hid'.symm)))

end Versions

-- Whoever sends them, and when, two exported documents differ in the records that the two reports
-- differ in, and in no more. If one report is exported twice, they do not differ.
theorem diff_exports {a a' : Archive} {root root' : Row} {sender sender' : Sender}
    {op op' : Operation} (h : Comparable a root first) (h' : Comparable a' root' second)
    (hv : sender.validate = .ok ()) (hv' : sender'.validate = .ok ())
    (ho : op.opType.carriesDataset) (ho' : op'.opType.carriesDataset) (stamp stamp' : Stamp) :
    ∃ e e' amendments, exportReport a sender stamp root op = .ok e ∧
      exportReport a' sender' stamp' root' op' = .ok e' ∧
      diff (bytes e.document) (bytes e'.document) = .ok amendments ∧
      (∀ m, m ∈ marks amendments ↔
        ∃ id kind, m = (some id, some kind) ∧ Reports first second id kind) ∧
      (amendments.map (·.rowId)).Nodup ∧ (first = second → amendments = []) := by
  obtain ⟨e, old, he, hparsed, hold⟩ := h.isParsed_export hv ho stamp
  obtain ⟨e', new, he', hparsed', hnew⟩ := h'.isParsed_export hv' ho' stamp'
  have ko := h.keyed hold
  have kn := h'.keyed hnew
  have hdiff := isDifference_between ko kn
  have hmarks : ∀ m, m ∈ marks (between (byId old) (byId new)) ↔
      ∃ id kind, m = (some id, some kind) ∧ Reports first second id kind := by
    rintro ⟨id, x⟩
    rw [hdiff.amends_iff]
    constructor
    case mp =>
      rintro ⟨kind, rfl, ha⟩
      obtain ⟨id, rfl⟩ := ha.exists_id ko kn
      exact ⟨id, kind, rfl, (amends_iff_reports hold hnew).mp ha⟩
    case mpr =>
      rintro ⟨id, kind, ⟨⟩, hr⟩
      exact ⟨kind, rfl, (amends_iff_reports hold hnew).mpr hr⟩
  refine ⟨e, e', _, he, he', diff_eq hparsed hparsed' ko kn, hmarks, hdiff.nodup, ?_⟩
  rintro rfl
  have hnone : marks (between (byId old) (byId new)) = [] := by
    refine List.eq_nil_iff_forall_not_mem.mpr fun m hm => ?_
    obtain ⟨id, kind, _, hr⟩ := (hmarks m).mp hm
    exact not_reports_self h.nodup hr
  exact List.map_eq_nil_iff.mp hnone

-- Racks of tubes, with the fields of the tubes.
namespace Racks

def definition : CatalogDefinition where
  tables := [
    { name := "rack", traversable := true },
    { name := "tube", traversable := true, generatesRecord := true,
      columns := [
        { id := "recordId", output := .record }, { id := "dye", output := .record },
        { id := "datasetVersion", output := .record }] }]
  relations := [{ parent := "rack", child := "tube" }]

def catalog : Catalog :=
  (Catalog.build definition).toOption.getD ⟨[]⟩

def stock : List Fields := [
  [("recordId", "T-1"), ("dye", "red"), ("datasetVersion", "1.01")],
  [("recordId", "T-2"), ("dye", "blue"), ("datasetVersion", "1.01")],
  [("recordId", "T-3"), ("dye", "<none>"), ("datasetVersion", "1.01")]]

def restocked : List Fields := [
  [("recordId", "T-4"), ("dye", "red"), ("datasetVersion", "1.02")],
  [("recordId", "T-3"), ("dye", "<none>"), ("datasetVersion", "1.02")],
  [("recordId", "T-1"), ("dye", "green"), ("datasetVersion", "1.02")]]

def archive (tubes : List Fields) : Archive where
  catalog := catalog
  store   := (Store.ofTables catalog [
    ("rack", [{ id := ⟨1⟩ }]),
    ("tube", tubes.map fun fields =>
      { cells := ("rackId", .plain "1") :: fields.map fun f => (f.1, .plain f.2) })
    ]).toOption.getD {}

def rack : Row :=
  ((archive []).store.rows "rack").head (by decide)

theorem built : Catalog.build definition = .ok catalog := by
  decide

theorem comparable : ∀ tubes ∈ [stock, restocked], Comparable (archive tubes) rack tubes := by
  have hstored : ∀ tubes ∈ [stock, restocked], ∀ shelf ∈ (archive tubes).store.shelves,
      ∀ r ∈ shelf.rows, (archive tubes).Holds r := by decide +kernel
  have hheld : ∀ tubes ∈ [stock, restocked], (archive tubes).Holds rack := by decide +kernel
  have hflatten : ∀ tubes ∈ [stock, restocked], flatten (archive tubes) rack = .ok tubes := by
    decide +kernel
  have hids : ∀ tubes ∈ [stock, restocked],
      (∀ fields ∈ tubes, ∃ id ∈ recordId? fields, id ≠ "") ∧ (tubes.map recordId?).Nodup := by
    decide +kernel
  have hcolumns : ∀ t ∈ catalog.tables, ∀ c ∈ t.columnsWith .record,
      Xml.isName c.id ∧ c.id ≠ Tag.nullified ∧ c.id ≠ Tag.amendmentType := by decide
  intro tubes h
  exact {
    sound   := ⟨⟨definition, built⟩, hstored tubes h⟩
    held    := hheld tubes h
    names   := fun t ht c hc => (hcolumns t ht c hc).1
    plain   := fun t ht c hc => (hcolumns t ht c hc).2
    flatten := hflatten tubes h
    ids     := (hids tubes h).1
    nodup   := (hids tubes h).2 }

end Racks

open Racks in
theorem diff_exports_racks :
    Comparable (archive stock) rack stock ∧ Comparable (archive restocked) rack restocked ∧
      ∃ e e' amendments,
        exportReport (archive stock) (.named "LAB" "ORG") ⟨⟨"m"⟩, 0⟩ rack { opType := .insert } =
          .ok e ∧
        exportReport (archive restocked) (.named "LAB" "ORG") ⟨⟨"n"⟩, 1⟩ rack
          { opType := .replace } = .ok e' ∧
        diff (bytes e.document) (bytes e'.document) = .ok amendments ∧
        (some "T-1", some .modified) ∈ marks amendments ∧
        (some "T-2", some .deleted) ∈ marks amendments ∧
        (∀ kind, (some "T-3", some kind) ∉ marks amendments) ∧
        (some "T-4", some .added) ∈ marks amendments := by
  have h := comparable stock (by simp)
  have h' := comparable restocked (by simp)
  have hv : (Sender.named "LAB" "ORG").validate = .ok () := by decide
  have hi : ({ opType := .insert } : Operation).opType.carriesDataset := rfl
  have hr : ({ opType := .replace } : Operation).opType.carriesDataset := rfl
  obtain ⟨e, e', amendments, he, he', hdiff, hmarks, _⟩ :=
    diff_exports h h' hv hv hi hr ⟨⟨"m"⟩, 0⟩ ⟨⟨"n"⟩, 1⟩
  have hnone : ∀ kind, ¬Reports stock restocked "T-3" kind := by
    intro kind
    cases kind <;> decide +kernel
  refine ⟨h, h', e, e', amendments, he, he', hdiff,
    (hmarks _).mpr ⟨"T-1", .modified, rfl, by decide +kernel⟩,
    (hmarks _).mpr ⟨"T-2", .deleted, rfl, by decide +kernel⟩, fun kind hm => ?_,
    (hmarks _).mpr ⟨"T-4", .added, rfl, by decide +kernel⟩⟩
  obtain ⟨_, _, ⟨⟩, hreport⟩ := (hmarks _).mp hm
  exact hnone kind hreport

end Difference

end ReportExchange
