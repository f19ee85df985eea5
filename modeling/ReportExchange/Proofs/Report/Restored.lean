import ReportExchange.Proofs.Formula.Lookup
import ReportExchange.Proofs.Formula.Stored
import ReportExchange.Proofs.Report.Walk

namespace ReportExchange

theorem RowId.text_ne_empty (id : RowId) : id.text ≠ "" := by
  have hr (n : Int) : n.repr ≠ "" := by
    cases n
    case ofNat n   => exact Nat.repr_ne_empty
    case negSucc n => simp [Int.repr]
  exact hr id.val.toInt

-- A child is found by what its key says; one without a key has no parent.
theorem Row.isChild_iff (r : Row) (column : String) (id : RowId) :
    (r.code column).map Text.trim = some id.text ↔
      Text.trim (r.text ⟨column, .code⟩) = id.text := by
  have hn : Text.trim "" ≠ id.text := by
    have he : Text.trim "" = "" := by decide
    exact he ▸ id.text_ne_empty.symm
  simp only [code, text, half, Cell.half]
  cases r.cells column
  case none   => simpa using hn
  case some c => simp

namespace Archive

variable {a a' : Archive} {row row' : Row}

section Below

variable (hs : a.Sound) (h : a.Restored a')

include hs h

theorem childrenOf_agree {r : Relation} {child : Table} (hm : r ∈ child.directParents)
    (ht : a.catalog.table? child.name = some child) (id : RowId) :
    List.Forall₂ (fun s s' => s.table = child ∧ a.catalog.Agree s s')
      (a.store.childrenOf child.name r.parent id) (a'.store.childrenOf child.name r.parent id) := by
  have stored (s : Row) (hmem : s ∈ a.store.rows child.name) : s.table = child := by
    have held := hs.holds_of_mem hmem
    rw [Holds, Store.table_of_mem_rows hmem, ht] at held
    exact (Option.some.inj held).symm
  refine List.rel_filter ?_ ((List.forall₂_and_left _ _).mpr ⟨stored, h.store child.name⟩)
  rintro s s' ⟨e, hr⟩
  have hk : a.catalog.Stored s.table ⟨foreignKey r.parent, .code⟩ :=
    e ▸ Catalog.stored_foreignKey hm
  simp only [decide_eq_true_eq, Row.isChild_iff, hr.text _ hk]

theorem belowBy_agree (held : a.Holds row) (hr : row.Same row') {r : Relation}
    (hm : r ∈ row.table.directChildren) :
    List.Forall₂ a.catalog.Agree (a.belowBy row r) (a'.belowBy row' r) := by
  obtain ⟨hp, child, hf, hc⟩ := hs.exists_child held hm
  have hn := Catalog.name_of_table? hf
  have hd : r ∈ child.directParents := List.mem_filter.mpr ⟨hc, (List.mem_filter.mp hm).2⟩
  simp only [belowBy, referring_eq, h.catalog, hf, hr.table, hr.id, ← hp]
  split
  case isFalse => exact .nil
  case isTrue  =>
    refine List.rel_map ?_ (childrenOf_agree hs h hd (hn ▸ hf) row.id)
    rintro s s' ⟨e, hs⟩
    have hi : (row.injectParent s).getD s |>.AgreesOn (a.catalog.Stored s.table)
        ((row'.injectParent s').getD s') :=
      .injectParent hr hs fun up hup =>
        .key ⟨r, e ▸ hd, .inr ⟨row.table, held.mem, hp.symm, up, hup, rfl⟩⟩
    have ht := (Row.spares_injectParent row s).table
    rw [Catalog.Agree, ht]
    exact hi

theorem below_agree (held : a.Holds row) (hr : row.Same row') :
    List.Forall₂ a.catalog.Agree (a.below row) (a'.below row') := by
  rw [below, below, hr.table]
  refine List.rel_flatMap (R := fun r r' => r ∈ row.table.directChildren ∧ r = r') ?_ ?_
  case refine_1 =>
    refine List.forall₂_same.mpr fun r hm => ⟨List.mem_reverse.mp hm, rfl⟩
  case refine_2 =>
    rintro r _ ⟨hm, rfl⟩
    exact belowBy_agree hs h held hr hm

end Below

end Archive

-- Visits that nobody can tell apart.
structure Visit.Same (v v' : Visit) : Prop where
  row       : v.row.Same v'.row
  faults    : v'.faults = v.faults
  inherited : v'.inherited = v.inherited

namespace Visit.Same

variable {v v' : Visit}

theorem fields_eq (h : v.Same v') : v'.fields = v.fields := by
  have ho : v'.own = v.own := by
    have hc (c : Column) : (v'.row.code c.id).getD "" = (v.row.code c.id).getD "" :=
      h.row.text ⟨c.id, .code⟩ trivial
    simp only [own, h.row.table, h.faults, hc]
  rw [fields, fields, h.inherited, ho]

theorem record?_eq (h : v.Same v') : v'.record? = v.record? := by
  simp only [record?, h.row.table, h.fields_eq]

end Visit.Same

namespace Archive

variable {a a' : Archive} {row row' root root' : Row}

theorem visits_same (hs : a.Sound) (hs' : a'.Sound) (h : a.Restored a') (held : a.Holds row)
    (hr : a.catalog.Agree row row') (inherited : Fields) :
    List.Forall₂ Visit.Same (a.visits hs row inherited) (a'.visits hs' row' inherited) := by
  induction hn : hs.height row.table.name using Nat.strong_induction_on
    generalizing row row' inherited
  case _ n hi =>
    have held' : a'.Holds row' := by
      rw [Holds, h.catalog, hr.table]
      exact held
    obtain ⟨hres, hfaults⟩ := Formula.resolved_same hs h held hr
    have hv : (Visit.of a row inherited).Same (Visit.of a' row' inherited) := ⟨hres, hfaults, rfl⟩
    have hheld := held.visit inherited
    have hb : List.Forall₂ (fun c c' => c ∈ a.below (Visit.of a row inherited).row ∧
        a.catalog.Agree c c') (a.below (Visit.of a row inherited).row)
        (a'.below (Visit.of a' row' inherited).row) :=
      (List.forall₂_and_left _ _).mpr ⟨fun _ hc => hc, below_agree hs h hheld hres⟩
    rw [visits_eq hs held, visits_eq hs' held']
    refine .cons hv (List.rel_flatMap hb ?_)
    rintro c c' ⟨hc, hcr⟩
    have hl := hs.height_below hheld hc
    rw [Visit.of, (a.resolved_spares row).table, hn] at hl
    rw [hv.fields_eq]
    exact hi _ hl (hs.holds_below hc) hcr _ rfl

end Archive

-- What a formula is answered by a row that it has climbed to: the text that is stored there, and
-- only if there is none, what the cell's own formula comes to.
def Archive.answer (a : Archive) (up : Row) (f : Formula) : Except FormulaError String :=
  if up.text f.reference = "" then
    match up.table.formula? f.reference with
    | some g => (Formula.lookUp a (Formula.chainLimit - 1) up g).value
    | none   => .ok ""
  else .ok (up.text f.reference)

variable {a a' : Archive} {row up root root' : Row} {x : CellHalf} {f : Formula}

open Formula in
theorem value_lookUp_declared (hs : a.Sound) (held : a.Holds up) (hd : up.table.declares f.column) :
    (lookUp a chainLimit up f).value = a.answer up f := by
  obtain ⟨_, hb⟩ := hs.built
  exact value_lookUp_of_declares hb held hd (chainLimit - 1)

-- The rows of an archive agree with themselves.
theorem Archive.restored_refl (a : Archive) : a.Restored a where
  catalog := rfl
  store   := fun _ => List.forall₂_same.mpr fun _ _ => .of_same (.refl _)

theorem above_eq_answer (hs : a.Sound) (held : a.Holds row) (hf : row.table.formula? x = some f)
    (hd : ¬ row.table.declares f.column)
    (hu : (Formula.ancestor a row f.column).value = .ok up) : a.above row f = a.answer up f := by
  have hm := Formula.ancestor_agrees hs a.restored_refl held
    (.of_same (.refl _)) hf hd
  rw [hu] at hm
  cases hm
  case ok hm =>
    rw [Archive.above, hu]
    exact value_lookUp_declared hs hm.1 hm.2.2.1

-- Formula cells that are not read from storage make no difference to an export. What a row reads
-- above itself is what is stored there, not what the row above it exports.
theorem export_restored (hs : a.Sound) (hs' : a'.Sound) (h : a.Restored a') (held : a.Holds root)
    (hr : a.catalog.Agree root root') :
    flatten a' root' = flatten a root ∧
    (∀ (sender : Sender) (stamp : Stamp) (op : Operation), sender.validate = .ok () →
      op.opType.carriesDataset →
      ∃ e e', exportReport a sender stamp root op = .ok e ∧
        exportReport a' sender stamp root' op = .ok e' ∧
        e'.message.dataset = e.message.dataset ∧ e'.summary.faults = e.summary.faults) ∧
    ∀ row x f up, a.Holds row → row.table.formula? x = some f → ¬ row.table.declares f.column →
      (Formula.ancestor a row f.column).value = .ok up → a.above row f = a.answer up f := by
  have held' : a'.Holds root' := by
    rw [Archive.Holds, h.catalog, hr.table]
    exact held
  have hv := Archive.visits_same hs hs' h held hr []
  have hrec : (a'.visits hs' root' []).filterMap (·.record?) =
      (a.visits hs root []).filterMap (·.record?) := by
    have hm := map_eq_of_forall₂ hv fun _ _ h => h.record?_eq
    simpa [List.filterMap_map] using congrArg (List.filterMap id) hm
  have hfaults : (a'.visits hs' root' []).flatMap (·.faults) =
      (a.visits hs root []).flatMap (·.faults) := by
    have hm := map_eq_of_forall₂ hv fun _ _ h => h.faults
    simp only [List.flatMap_def, hm]
  refine ⟨?_, fun sender stamp op hok hop => ?_, fun row x f up => above_eq_answer hs⟩
  case refine_1 => rw [flatten_eq hs held, flatten_eq hs' held', hrec]
  case refine_2 =>
    obtain ⟨e, he, hm, _, _, hf⟩ := exportReport_eq hs held hok hop stamp
    obtain ⟨e', he', hm', _, _, hf'⟩ := exportReport_eq hs' held' hok hop stamp
    exact ⟨e, e', he, he', by simp [hm, hm', hrec], by rw [hf, hf', hfaults]⟩

-- Wells of plates. The grade of a plate is that of its assay, and a well has the grade of its plate.
namespace Grades

def definition : CatalogDefinition where
  tables := [
    { name := "plate", traversable := true,
      columns := [
        { id := "assay" },
        { id := "grade", output := .record, codeFormula := some "%assay.code" }] },
    { name := "well", traversable := true, generatesRecord := true,
      columns := [{ id := "wellGrade", output := .record, codeFormula := some "%grade.code" }] }]
  relations := [{ parent := "plate", child := "well" }]

def catalog : Catalog :=
  (Catalog.build definition).toOption.getD ⟨[]⟩

-- The plate and its well, with the codes that are stored for their grades.
def archiveOf (plateGrade wellGrade : List (String × Cell)) : Archive where
  catalog := catalog
  store   := (Store.ofTables catalog [
    ("plate", [{ id := ⟨1⟩, cells := ("assay", .plain "A") :: plateGrade }]),
    ("well", [{ id := ⟨1⟩, cells := ("plateId", .plain "1") :: wellGrade }])]).toOption.getD {}

def archive : Archive :=
  archiveOf [] []

def staleWell : Archive :=
  archiveOf [] [("wellGrade", { code := "X" })]

def stalePlate : Archive :=
  archiveOf [("grade", { code := "B" })] []

theorem sound_archive : archive.Sound :=
  ⟨⟨definition, by decide⟩, by decide⟩

theorem sound_staleWell : staleWell.Sound :=
  ⟨⟨definition, by decide⟩, by decide⟩

theorem sound_stalePlate : stalePlate.Sound :=
  ⟨⟨definition, by decide⟩, by decide⟩

def plate : Row :=
  (archive.store.rows "plate").head (by decide)

def well : Row :=
  (archive.store.rows "well").head (by decide)

def otherPlate : Row :=
  (stalePlate.store.rows "plate").head (by decide)

def otherWell : Row :=
  (staleWell.store.rows "well").head (by decide)

theorem set_well : well.setHalf "wellGrade" .code "X" = .ok otherWell :=
  rfl

theorem set_plate : plate.setHalf "grade" .code "B" = .ok otherPlate :=
  rfl

-- No formula refers to the grade of a well.
theorem restored_staleWell : archive.Restored staleWell where
  catalog := rfl
  store   := by
    have hp : catalog.Agree plate plate := .of_same (.refl _)
    have hw : catalog.Agree well otherWell := by
      refine .of_setHalf (x := ⟨"wellGrade", .code⟩) set_well ?_
      exact Catalog.not_stored sound_archive.catalog (by decide) (by decide) (by decide) (by decide)
    exact Store.matches_of_shelves
      (.cons ⟨rfl, .cons hp .nil⟩ (.cons ⟨rfl, .cons hw .nil⟩ .nil))

end Grades

open Grades in
theorem export_restored_staleWell :
    archive.Restored staleWell ∧ archive.Holds plate ∧ catalog.Agree plate plate ∧
    flatten staleWell plate = flatten archive plate := by
  have hr : archive.catalog.Agree plate plate := .of_same (.refl _)
  have held : archive.Holds plate := by decide
  exact ⟨restored_staleWell, held, hr,
    (export_restored sound_archive sound_staleWell restored_staleWell held hr).1⟩

-- The well takes the grade that is stored for its plate, although the plate exports another one.
open Grades in
theorem export_not_of_plain_cells :
    ¬ ∀ (a a' : Archive) (root root' : Row), a.Sound → a'.Sound → a'.catalog = a.catalog →
      a.store.Matches (fun r r' => r.AgreesOn (r.table.formula? · = none) r') a'.store →
      a.Holds root → root.AgreesOn (root.table.formula? · = none) root' →
      flatten a' root' = flatten a root := by
  intro h
  have hp : plate.AgreesOn (plate.table.formula? · = none) otherPlate :=
    .of_setHalf (x := ⟨"grade", .code⟩) set_plate (by decide)
  have hw : well.AgreesOn (well.table.formula? · = none) well :=
    .of_same (.refl _)
  have hs : archive.store.Matches (fun r r' => r.AgreesOn (r.table.formula? · = none) r')
      stalePlate.store :=
    Store.matches_of_shelves (.cons ⟨rfl, .cons hp .nil⟩ (.cons ⟨rfl, .cons hw .nil⟩ .nil))
  have he := h archive stalePlate plate otherPlate sound_archive sound_stalePlate rfl hs (by decide)
    hp
  have hf : flatten archive plate = .ok [[("grade", "A"), ("wellGrade", "A")]] := by
    decide +kernel
  have hs : flatten stalePlate otherPlate = .ok [[("grade", "A"), ("wellGrade", "B")]] := by
    decide +kernel
  simp [hf, hs] at he

end ReportExchange
