import ReportExchange.Proofs.Report.Fields
import ReportExchange.Proofs.Report.Walk

namespace ReportExchange

theorem Table.not_mem_computed {t : Table} {c : Column} (hn : (t.columns.map (·.id)).Nodup)
    (hc : c ∈ t.columns) (hf : ¬ c.hasFormula) : c.id ∉ Formula.computed t := by
  intro hm
  have ⟨d, hd, e⟩ := List.mem_map.mp hm
  have ⟨hd, hf'⟩ := List.mem_filter.mp hd
  exact hf (List.inj_on_of_nodup_map hn hd hc e ▸ hf')

namespace Visit

variable {v : Visit} {c : Column}

theorem own_nodup (hn : (v.row.table.columns.map (·.id)).Nodup) : (v.own.map (·.1)).Nodup := by
  refine hn.sublist (sublist_map_filterMap v.row.table.columns fun c f hf => ?_)
  split at hf <;> cases hf
  rfl

theorem get?_own (hn : (v.row.table.columns.map (·.id)).Nodup)
    (hc : c ∈ v.row.table.columnsWith .record) (hf : ∀ f ∈ v.faults, f.cell.column ≠ c.id) :
    v.own.get? c.id = some ((v.row.code c.id).getD "") := by
  have ⟨hc, ho⟩ := List.mem_filter.mp hc
  exact Fields.get?_of_mem (own_nodup hn) (mem_own_iff.mpr ⟨c, hc, ⟨of_decide_eq_true ho, hf⟩, rfl⟩)

theorem get?_own_of_failed {f : CellFault} (hf : f ∈ v.faults) :
    v.own.get? f.cell.column = none := by
  rw [Fields.get?_eq_none_iff]
  intro hm
  obtain ⟨_, hm, e⟩ := List.mem_map.mp hm
  obtain ⟨c, _, ⟨_, hn⟩, rfl⟩ := mem_own_iff.mp hm
  exact hn f hf e.symm

theorem of_faults {a : Archive} {row : Row} {inherited : Fields} {f : CellFault}
    (hf : f ∈ (of a row inherited).faults) :
    f.cell.column ∈ Formula.computed (of a row inherited).row.table := by
  rw [of, (a.resolved_spares row).table]
  exact a.resolved_faults row f hf

end Visit

variable {a : Archive} {root : Row} {v : Visit} {above : List Visit} {column : String} {s : Row}

theorem Archive.record_mem_flatten (h : a.Sound) (held : a.Holds root)
    (t : a.Trail root (v :: above)) (hg : v.row.table.generatesRecord) :
    ∃ records, flatten a root = .ok records ∧ v.fields ∈ records := by
  refine ⟨_, flatten_eq h held, List.mem_filterMap.mpr ⟨v, ?_, if_pos hg⟩⟩
  exact (mem_visits_iff h held).mpr ⟨above, t⟩

theorem Archive.Trail.holds (h : a.Sound) (held : a.Holds root) (t : a.Trail root (v :: above)) :
    a.Holds v.row := by
  have ⟨_, inherited, hr, e, _⟩ := t.visits_subset h held rfl
  exact e ▸ hr.visit inherited

theorem Archive.Trail.faults_computed (t : a.Trail root (v :: above)) {f : CellFault}
    (hf : f ∈ v.faults) : f.cell.column ∈ Formula.computed v.row.table := by
  cases t
  case root => exact Visit.of_faults hf
  case down => exact Visit.of_faults hf

-- A failed column is left out of the row's own fields, which uncovers those of the rows above.
theorem failed_column_uncovered (h : a.Sound) (held : a.Holds root)
    (t : a.Trail root (v :: above)) (hg : v.row.table.generatesRecord) {f : CellFault}
    (hf : f ∈ v.faults) :
    ∃ records, flatten a root = .ok records ∧ v.fields ∈ records ∧
      v.fields.get? f.cell.column = above.findSome? (·.own.get? f.cell.column) ∧
      (f.cell.column ∉ v.fields.map (·.1) ↔
        ∀ u ∈ above, f.cell.column ∉ u.own.map (·.1)) := by
  have ⟨records, hr, hm⟩ := Archive.record_mem_flatten h held t hg
  have hn := Visit.get?_own_of_failed hf
  have hv : v.fields.get? f.cell.column = above.findSome? (·.own.get? f.cell.column) := by
    rw [t.get?_fields _ rfl, List.findSome?_cons, hn]
  refine ⟨records, hr, hm, hv, ?_⟩
  rw [← Fields.get?_eq_none_iff, hv, List.findSome?_eq_none_iff]
  simp only [Fields.get?_eq_none_iff]

namespace Plates

def well : Visit :=
  .of archive ((archive.below top.row).head (by decide)) top.fields

theorem well_reached : archive.Trail plate [well, top] :=
  .down .root (List.head_mem _)

def fault : CellFault :=
  well.faults.head (by decide)

end Plates

open Plates in
theorem failed_column_uncovered_well :
    fault ∈ well.faults ∧ well.row.table.generatesRecord ∧
    ∃ records, flatten archive plate = .ok records ∧ well.fields ∈ records ∧
      well.fields.get? fault.cell.column = [top].findSome? (·.own.get? fault.cell.column) ∧
      (fault.cell.column ∉ well.fields.map (·.1) ↔
        ∀ u ∈ [top], fault.cell.column ∉ u.own.map (·.1)) :=
  have hf : fault ∈ well.faults := List.head_mem _
  have hg : well.row.table.generatesRecord := by decide
  ⟨hf, hg, failed_column_uncovered sound (by decide) well_reached hg hf⟩

-- The grade of the first well fails, and its record shows the grade of the plate.
open Plates in
theorem failed_column_not_omitted :
    ¬ ∀ v above, archive.Trail plate (v :: above) → v.row.table.generatesRecord →
      ∀ f ∈ v.faults, f.cell.column ∉ v.fields.map (·.1) :=
  fun h => h well [top] well_reached (by decide) fault (List.head_mem _) (by decide)

-- The code that a stored row has once it has been reached: the row just above it may have filled in
-- the identity of an ancestor.
def Row.reachedCode (s : Row) (column : String) : List Visit → Option String
  | []     => s.code column
  | p :: _ => p.row.codeBelow s column

theorem Archive.Trail.stored (h : a.Sound) (hr : a.store.find? root.table.name root.id = some root)
    (t : a.Trail root (v :: above)) (hd : v.row.table.declares column)
    (hc : column ∉ Formula.computed v.row.table)
    (hk : ∀ r ∈ v.row.table.parents, column ≠ r.foreignKey) :
    ∃ s, a.store.find? v.row.table.name v.row.id = some s ∧
      v.row.code column = s.reachedCode column above := by
  have held := h.holds_of_find? hr
  cases t
  case root =>
    have hs := a.resolved_spares root
    have ht : (Visit.of a root []).row.table = root.table := hs.table
    refine ⟨root, ?_, hs.code (ht ▸ hc)⟩
    rw [ht, Visit.of, hs.id]
    exact hr
  case down p rest c t hb =>
    obtain ⟨s, hs, held', e, r, hr, hp⟩ := h.stored_of_mem_below (t.holds h held) hb
    have hi := Row.spares_injectParent p.row s
    have hv := a.resolved_spares c
    have hct : c.table = s.table := e ▸ hi.table
    have ht : (Visit.of a c p.fields).row.table = s.table := hv.table.trans hct
    rw [ht] at hd hc hk ⊢
    have hdk := h.catalog.keys s.table held'.mem r hr
    have hfk := hk r hr
    rw [Relation.foreignKey, hp] at hfk
    refine ⟨s, ?_, ?_⟩
    case refine_1 =>
      rw [Visit.of, hv.id, e, hi.id]
      exact hs
    case refine_2 =>
      calc (a.resolved c).1.code column
        _ = c.code column                                := hv.code (hct ▸ hc)
        _ = ((p.row.injectParent s).getD s).code column  := by rw [e]
        _ = p.row.codeBelow s column                     := Row.code_injectParent hr hp hdk hd hfk

-- A stored code comes out as it is stored, unless it is in a place for an ancestor that holds no
-- identity.
theorem stored_code_exported (h : a.Sound)
    (hr : a.store.find? root.table.name root.id = some root) (t : a.Trail root (v :: above))
    (hg : v.row.table.generatesRecord) {c : Column} (hc : c ∈ v.row.table.columnsWith .record)
    (hf : ¬ c.hasFormula) (hk : ∀ r ∈ v.row.table.parents, c.id ≠ r.foreignKey) :
    ∃ records s, flatten a root = .ok records ∧ v.fields ∈ records ∧
      a.store.find? v.row.table.name v.row.id = some s ∧
      v.fields.get? c.id = some ((s.reachedCode c.id above).getD "") := by
  have held := h.holds_of_find? hr
  have ⟨records, hfl, hm⟩ := Archive.record_mem_flatten h held t hg
  have hn := h.catalog.columns _ (t.holds h held).mem
  have hcm := (List.mem_filter.mp hc).1
  have hnc := Table.not_mem_computed hn hcm hf
  have hd : v.row.table.declares c.id := List.any_eq_true.mpr ⟨c, hcm, decide_eq_true rfl⟩
  have ⟨s, hs, hcode⟩ := t.stored h hr hd hnc hk
  refine ⟨records, s, hfl, hm, hs, ?_⟩
  have hff : ∀ f ∈ v.faults, f.cell.column ≠ c.id := fun f hf e => hnc (e ▸ t.faults_computed hf)
  rw [t.get?_fields _ rfl, List.findSome?_cons, Visit.get?_own hn hc hff, hcode]

-- Tests of samples, each with a number that the laboratory gave it. The column of that number is
-- named like a key of the table of laboratories, but no relation leads from there to a test.
namespace Labs

def definition : CatalogDefinition where
  tables := [
    { name := "lab", traversable := true },
    { name := "sample", traversable := true },
    { name := "test", traversable := true, generatesRecord := true,
      columns := [{ id := "labId", output := .record }] }]
  relations := [{ parent := "lab", child := "sample" }, { parent := "sample", child := "test" }]

def records : List (String × List Record) := [
  ("lab", [{ id := ⟨3⟩ }]),
  ("sample", [{ id := ⟨1⟩, cells := [("labId", .plain "3")] }]),
  ("test", [{ id := ⟨1⟩, cells := [("labId", .plain "LAB-7"), ("sampleId", .plain "1")] }])]

def catalog : Catalog :=
  (Catalog.build definition).toOption.getD ⟨[]⟩

def archive : Archive where
  catalog := catalog
  store   := (Store.ofTables catalog records).toOption.getD {}

def lab : Row :=
  (archive.store.rows "lab").head (by decide)

theorem sound : archive.Sound :=
  ⟨⟨definition, by decide⟩, by decide⟩

def top : Visit :=
  .of archive lab []

def sample : Visit :=
  .of archive ((archive.below top.row).head (by decide)) top.fields

def test : Visit :=
  .of archive ((archive.below sample.row).head (by decide)) sample.fields

theorem test_reached : archive.Trail lab [test, sample, top] :=
  .down (.down .root (List.head_mem _)) (List.head_mem _)

def number : Column :=
  { id := "labId", output := .record }

theorem lab_stored : archive.store.find? lab.table.name lab.id = some lab :=
  rfl

end Labs

open Labs in
theorem stored_code_exported_test :
    number ∈ test.row.table.columnsWith .record ∧
    ∃ records s, flatten archive lab = .ok records ∧ test.fields ∈ records ∧
      archive.store.find? test.row.table.name test.row.id = some s ∧
      test.fields.get? number.id = some ((s.reachedCode number.id [sample, top]).getD "") :=
  have hc : number ∈ test.row.table.columnsWith .record := by decide
  ⟨hc, stored_code_exported sound lab_stored test_reached (by decide) hc (by decide) (by decide)⟩

-- The number of the test is no row identity, so the identity of the laboratory takes its place.
open Labs in
theorem stored_code_not_exported :
    ¬ ∀ v above, archive.Trail lab (v :: above) → v.row.table.generatesRecord →
      ∀ c ∈ v.row.table.columnsWith .record, ¬ c.hasFormula →
      (∀ r ∈ v.row.table.parents, c.id ≠ r.foreignKey) →
      ∃ s, archive.store.find? v.row.table.name v.row.id = some s ∧
        v.fields.get? c.id = some ((s.code c.id).getD "") := by
  intro h
  have ⟨s, hs, he⟩ := h test [sample, top] test_reached (by decide) number (by decide) (by decide)
    (by decide)
  have hn : (archive.store.find? test.row.table.name test.row.id).bind (·.code number.id) =
      some "LAB-7" := by decide
  have hg : test.fields.get? number.id = some "3" := by decide
  rw [hs, Option.bind_some] at hn
  rw [hg, hn] at he
  exact absurd he (by decide)

end ReportExchange
