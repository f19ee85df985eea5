import ReportExchange.Proofs.Catalog.Nearest
import ReportExchange.Proofs.Formula.Resolution

namespace ReportExchange

-- Keys that hold identities lead along a chain of relations, each to a stored row.
inductive Store.Rises (s : Store) : Row → List Relation → Row → Prop
  | nil {row : Row} : Rises s row [] row
  | cons {row mid up : Row} {r : Relation} {path : List Relation} {id : RowId} :
    row.parentId r.parent = some id → s.find? r.parent id = some mid → Rises s mid path up →
    Rises s row (r :: path) up

-- A chain of relations breaks off at the first key that holds no identity, or one of no row.
inductive Store.Breaks (s : Store) : Row → List Relation → FormulaError → Prop
  | unset {row : Row} {r : Relation} {path : List Relation} :
    row.parentId r.parent = none →
    Breaks s row (r :: path) (.missingParent row.table.name r.parent)
  | dangling {row : Row} {r : Relation} {path : List Relation} {id : RowId} :
    row.parentId r.parent = some id → s.find? r.parent id = none →
    Breaks s row (r :: path) (.parent (.notFound r.parent id))
  | above {row mid : Row} {r : Relation} {path : List Relation} {id : RowId} {e : FormulaError} :
    row.parentId r.parent = some id → s.find? r.parent id = some mid → Breaks s mid path e →
    Breaks s row (r :: path) e

namespace Store

variable {s : Store} {row up : Row} {path other : List Relation}

theorem rises_or_breaks (s : Store) (row : Row) (path : List Relation) :
    (∃ up, s.Rises row path up) ∨ ∃ e, s.Breaks row path e := by
  induction path generalizing row
  case nil => exact .inl ⟨row, .nil⟩
  case cons r path hi =>
    cases hk : row.parentId r.parent
    case none    => exact .inr ⟨_, .unset hk⟩
    case some id =>
      cases hm : s.find? r.parent id
      case none     => exact .inr ⟨_, .dangling hk hm⟩
      case some mid =>
        cases hi mid
        case inl h =>
          obtain ⟨up, h⟩ := h
          exact .inl ⟨up, .cons hk hm h⟩
        case inr h =>
          obtain ⟨e, h⟩ := h
          exact .inr ⟨e, .above hk hm h⟩

-- Who gets to the end of a chain has been everywhere on it.
theorem Rises.exists_of_prefix (h : s.Rises row other up) (hp : path <+: other) :
    ∃ mid, s.Rises row path mid := by
  induction h generalizing path
  case nil row =>
    cases List.prefix_nil.mp hp
    exact ⟨row, .nil⟩
  case cons row _ _ r _ _ hk hm _ hi =>
    cases path
    case nil => exact ⟨row, .nil⟩
    case cons r' path =>
      obtain ⟨rfl, ht⟩ := List.cons_prefix_cons.mp hp
      obtain ⟨mid, h⟩ := hi ht
      exact ⟨mid, .cons hk hm h⟩

end Store

namespace Ascends

variable {relations path other : List Relation} {r : Relation} {name top top' : String}

theorem nil_iff : Ascends relations name [] top ↔ name = top := by
  constructor
  case mp =>
    intro h
    cases h
    rfl
  case mpr =>
    rintro rfl
    exact .nil

theorem cons_iff : Ascends relations name (r :: path) top ↔
    r ∈ relations ∧ r.direct ∧ r.child = name ∧ Ascends relations r.parent path top := by
  constructor
  case mp =>
    intro h
    cases h with | cons hr hd h => exact ⟨hr, hd, rfl, h⟩
  case mpr =>
    rintro ⟨hr, hd, rfl, h⟩
    exact .cons hr hd h

instance decidable (relations : List Relation) (top : String) :
    (name : String) → (path : List Relation) → Decidable (Ascends relations name path top)
  | _, []        => decidable_of_iff _ nil_iff.symm
  | _, r :: path =>
    have := decidable relations top r.parent path
    decidable_of_iff _ cons_iff.symm

-- Two chains lead the same way to a table, and from there on to different parents.
def Parts (path other : List Relation) : Prop :=
  ∃ before r rest s rest', path = before ++ r :: rest ∧ other = before ++ s :: rest' ∧
    r.child = s.child ∧ r.parent ≠ s.parent

theorem Parts.ne (h : Parts path other) : path ≠ other := by
  obtain ⟨before, r, rest, s, rest', rfl, rfl, _, hne⟩ := h
  intro e
  obtain ⟨rfl, _⟩ := List.cons.inj (List.append_cancel_left e)
  exact hne rfl

-- Of two chains from one table, the longer one goes on from the shorter one unless they part.
theorem prefix_or_parts (h : Ascends relations name path top)
    (h' : Ascends relations name other top') (hl : path.length ≤ other.length) :
    path <+: other ∨ Parts path other := by
  induction path generalizing name other
  case nil => exact .inl List.nil_prefix
  case cons r path hi =>
    cases other
    case nil => cases hl
    case cons s other =>
      obtain ⟨_, hdr, hcr, h⟩ := cons_iff.mp h
      obtain ⟨_, hds, hcs, h'⟩ := cons_iff.mp h'
      have hc : r.child = s.child := hcr.trans hcs.symm
      by_cases hp : r.parent = s.parent
      case neg => exact .inr ⟨[], r, path, s, other, rfl, rfl, hc, hp⟩
      case pos =>
        obtain rfl : r = s := by
          cases r
          cases s
          simp_all
        cases hi h h' (Nat.le_of_succ_le_succ hl)
        case inl hp => exact .inl (List.cons_prefix_cons.mpr ⟨rfl, hp⟩)
        case inr hp =>
          obtain ⟨before, u, rest, v, rest', rfl, rfl, hn⟩ := hp
          exact .inr ⟨r :: before, u, rest, v, rest', rfl, rfl, hn⟩

end Ascends

namespace Archive

variable {a : Archive} {d : CatalogDefinition} {row up top : Row} {path other : List Relation}
variable {column : String}

-- The keys of rows lead up along direct relations to a row whose table declares the column.
structure Reaches (a : Archive) (relations : List Relation) (row : Row) (column : String)
    (path : List Relation) (top : Row) : Prop where
  ascends  : Ascends relations row.table.name path top.table.name
  rises    : a.store.Rises row path top
  declares : a.catalog.Declares top.table.name column

-- The end of a chain on tables is the table of the row at its end.
theorem table_of_rises (h : a.store.Rises row path up) {t top : Table} (ht : t.name = row.table.name)
    (hc : a.catalog.Climbs t path top) : top.name = up.table.name := by
  induction h generalizing t
  case nil =>
    cases hc
    exact ht
  case cons hm _ hi =>
    cases hc with | cons _ hp hc => ?_
    refine hi ?_ hc
    rw [Catalog.name_of_table? hp, Store.table_of_mem_rows (List.mem_of_find?_eq_some hm)]

theorem knows_of_climbs {c : Catalog} {t top : Table} (h : c.Climbs t path top) :
    ∀ r ∈ path, c.Knows r.parent := by
  induction h
  case nil => simp
  case cons hm _ hi => exact List.forall_mem_cons.mpr ⟨by simp [Catalog.Knows, hm], hi⟩

-- If some way leads to the column, the search finds a way that is not longer.
theorem Reaches.exists_path (hr : a.Reaches d.relations row column other top)
    (hb : Catalog.build d = .ok a.catalog) (held : a.Holds row)
    (hd : ¬ row.table.declares column) :
    ∃ path, a.catalog.pathToAncestor row.table.name column = some path ∧
      a.catalog.IsNearest d.relations row.table.name column path ∧
      path.length ≤ other.length := by
  have hn : other ≠ [] := by
    rintro rfl
    obtain ⟨t, ht, hc⟩ := hr.declares
    cases hr.rises
    cases held.symm.trans ht
    exact hd hc
  cases hp : a.catalog.pathToAncestor row.table.name column
  case none =>
    obtain ⟨_, hc, hne, hu⟩ :=
      Catalog.exists_climbs_of_declares hb held hn hr.ascends hr.declares
    exact absurd hu (Catalog.not_declares_above held hp hc hne)
  case some path =>
    have hi := Catalog.isNearest_of_pathToAncestor hb held hp
    exact ⟨path, rfl, hi, hi.shortest other _ hn hr.ascends hr.declares⟩

end Archive

namespace Formula

variable {a : Archive} {d : CatalogDefinition} {row up mid top : Row} {path other : List Relation}
variable {r : Relation} {id : RowId} {e : FormulaError} {f : Formula} {x : CellHalf}
variable {column : String} {cache : ParentCache}

theorem value_follow_stored (hk : a.catalog.Knows r.parent) (hi : row.parentId r.parent = some id)
    (hm : a.store.find? r.parent id = some mid) :
    (follow a row (r :: path)).value = (follow a mid path).value := by
  simp only [value_follow_cons, hi, Archive.parent_eq_ok_iff.mpr ⟨hk, hm⟩]
  rfl

theorem value_follow_of_rises (hk : ∀ r ∈ path, a.catalog.Knows r.parent)
    (h : a.store.Rises row path up) : (follow a row path).value = .ok up := by
  induction h
  case nil => rfl
  case cons hi hm _ hr =>
    obtain ⟨hk, hks⟩ := List.forall_mem_cons.mp hk
    exact (value_follow_stored hk hi hm).trans (hr hks)

theorem value_follow_of_breaks (hk : ∀ r ∈ path, a.catalog.Knows r.parent)
    (h : a.store.Breaks row path e) : (follow a row path).value = .error e := by
  induction h
  case unset hi => simp only [value_follow_cons, hi]
  case dangling hi hm =>
    have hp := (List.forall_mem_cons.mp hk).1
    simp only [value_follow_cons, hi, Archive.parent_eq, if_pos hp, hm]
    rfl
  case above hi hm _ hr =>
    obtain ⟨hk, hks⟩ := List.forall_mem_cons.mp hk
    exact (value_follow_stored hk hi hm).trans (hr hks)

theorem run_ancestor (hc : cache.Faithful a) :
    ((ancestor a row column).run.run cache).1 = (ancestor a row column).value :=
  (steady_ancestor row column cache hc).1

-- What is seen of a cell in a row that has been resolved, and among its faults.
def Shown (row : Row) (resolved : Row × List CellFault) (x : CellHalf) :
    Except FormulaError String → Prop
  | .ok v    => resolved.1.half x.column x.half = some v ∧ faultsAt resolved.2 x = []
  | .error e => resolved.1.text x = "" ∧ faultsAt resolved.2 x = [pin row x e]

-- A formula cell shows what its formula finds above.
theorem shown_above (hb : Catalog.build d = .ok a.catalog) (held : a.Holds row)
    (hk : ∀ r ∈ row.table.directParents, row.table.formula? ⟨r.foreignKey, .code⟩ = none)
    (hf : row.table.formula? x = some f) (hd : ¬ row.table.declares f.column)
    (hc : cache.Faithful a) :
    Shown row ((resolveRow a row).run cache).1 x (a.above row f) := by
  have hn := (Catalog.sound_of_build hb).columns _ held.mem
  have ht : row.uncomputed.table = row.table := row.spares_uncomputed.table
  have ha : row.table.Anchored a.catalog := Table.anchored_of_keys held hk
  have hr := computes_of_anchored hb held ha
  have hu : a.above row.uncomputed f = a.above row f := by
    refine Archive.above_congr held ht fun up rest hp => ?_
    simp [Row.text_uncomputed hn, ha x f hf hd up rest hp]
  have ho : Outcome a row.uncomputed x (a.above row f) := hu ▸ .above (ht ▸ hf) (ht ▸ hd)
  rw [(steady_resolveRow row cache hc).1]
  cases hv : a.above row f <;> rw [hv] at ho
  case ok    => exact hr.value x _ ho
  case error => exact hr.fault x _ ho

theorem above_of_ancestor (h : (ancestor a row f.column).value = .ok up) :
    a.above row f = (lookUp a chainLimit up f).value := by
  rw [Archive.above, h]
  rfl

-- The search finds the row to which the way that the tables say leads, or fails where it breaks off.
theorem ancestor_of_path (hb : Catalog.build d = .ok a.catalog) (held : a.Holds row)
    (hp : a.catalog.pathToAncestor row.table.name column = some path) :
    (∃ up, a.Reaches d.relations row column path up ∧ (ancestor a row column).value = .ok up) ∨
    ∃ e, a.store.Breaks row path e ∧ (ancestor a row column).value = .error e := by
  obtain ⟨top, hc, _, hu⟩ := Catalog.climbs_of_pathToAncestor held hp
  have hk := Archive.knows_of_climbs hc
  have hv : (ancestor a row column).value = (follow a row path).value := by
    simp only [value_ancestor, hp]
  rw [hv]
  cases a.store.rises_or_breaks row path
  case inl h =>
    obtain ⟨up, h⟩ := h
    have ht : top.name = up.table.name := Archive.table_of_rises h rfl hc
    have ha := hc.ascends hb held.mem
    refine .inl ⟨up, ⟨ht ▸ ha, h, top, ?_, hu⟩, value_follow_of_rises hk h⟩
    exact ht ▸ hc.found held
  case inr h =>
    obtain ⟨e, h⟩ := h
    exact .inr ⟨e, h, value_follow_of_breaks hk h⟩

-- Keys that do lead to such a row have gone another way from some table on.
theorem parts_of_breaks (hb : Catalog.build d = .ok a.catalog) (held : a.Holds row)
    (hp : a.catalog.pathToAncestor row.table.name column = some path)
    (he : a.store.Breaks row path e) (hr : a.Reaches d.relations row column other top)
    (hl : path.length ≤ other.length) : Ascends.Parts path other := by
  obtain ⟨_, hc, _⟩ := Catalog.climbs_of_pathToAncestor held hp
  have hk := Archive.knows_of_climbs hc
  have ha := hc.ascends hb held.mem
  cases ha.prefix_or_parts hr.ascends hl
  case inr h => exact h
  case inl h =>
    obtain ⟨mid, hm⟩ := hr.rises.exists_of_prefix h
    have hf := value_follow_of_rises hk hm
    rw [value_follow_of_breaks hk he] at hf
    cases hf

-- A formula finds a row above at the end of the way that the tables say. If this way breaks off, it
-- fails, though the keys lead to such a row from a table with another parent on.
theorem resolveRow_reaches (hb : Catalog.build d = .ok a.catalog) (held : a.Holds row)
    (hk : ∀ r ∈ row.table.directParents, row.table.formula? ⟨r.foreignKey, .code⟩ = none)
    (hf : row.table.formula? x = some f) (hd : ¬ row.table.declares f.column)
    (hr : a.Reaches d.relations row f.column other top) (hc : cache.Faithful a) :
    ∃ path, a.catalog.pathToAncestor row.table.name f.column = some path ∧
      a.catalog.IsNearest d.relations row.table.name f.column path ∧
      ((∃ up, a.Reaches d.relations row f.column path up ∧
          ((ancestor a row f.column).run.run cache).1 = .ok up ∧
          Shown row ((resolveRow a row).run cache).1 x (lookUp a chainLimit up f).value) ∨
        ∃ e, a.store.Breaks row path e ∧
          ((ancestor a row f.column).run.run cache).1 = .error e ∧
          Shown row ((resolveRow a row).run cache).1 x (.error e) ∧
          Ascends.Parts path other) := by
  obtain ⟨path, hp, hi, hl⟩ := hr.exists_path hb held hd
  have hs := shown_above hb held hk hf hd hc
  refine ⟨path, hp, hi, ?_⟩
  rw [run_ancestor hc]
  cases ancestor_of_path hb held hp
  case inl h =>
    obtain ⟨up, hu, hv⟩ := h
    exact .inl ⟨up, hu, hv, above_of_ancestor hv ▸ hs⟩
  case inr h =>
    obtain ⟨e, he, hv⟩ := h
    have hae : a.above row f = .error e := by rw [Archive.above, hv]; rfl
    exact .inr ⟨e, he, hv, hae ▸ hs, parts_of_breaks hb held hp he hr hl⟩

-- Wells of a run, by way of their plate or of their batch. The way that the tables say is the one by
-- the plate, which the first well does not have.
namespace Wells

def definition : CatalogDefinition where
  tables := [
    { name := "run", columns := [{ id := "site" }] }, { name := "plate" }, { name := "batch" },
    { name := "well", columns := [{ id := "origin", codeFormula := some "%site.code" }] }]
  relations := [
    { parent := "run", child := "plate" }, { parent := "run", child := "batch" },
    { parent := "plate", child := "well" }, { parent := "batch", child := "well" }]

def records : List (String × List Record) := [
  ("run", [{ id := ⟨1⟩, cells := [("site", .plain "north")] }]),
  ("plate", [{ id := ⟨1⟩, cells := [("runId", .plain "1")] }]),
  ("batch", [{ id := ⟨1⟩, cells := [("runId", .plain "1")] }]),
  ("well", [
    { id := ⟨1⟩, cells := [("batchId", .plain "1")] },
    { id := ⟨2⟩, cells := [("plateId", .plain "1")] }])]

def archive : Archive :=
  let catalog := (Catalog.build definition).toOption.getD ⟨[]⟩
  { catalog, store := (Store.ofTables catalog records).toOption.getD {} }

def stored (table : String) (id : RowId) (h : (archive.store.find? table id).isSome) : Row :=
  (archive.store.find? table id).get h

def run : Row :=
  stored "run" ⟨1⟩ (by decide)

def plate : Row :=
  stored "plate" ⟨1⟩ (by decide)

def batch : Row :=
  stored "batch" ⟨1⟩ (by decide)

def batched : Row :=
  stored "well" ⟨1⟩ (by decide)

def plated : Row :=
  stored "well" ⟨2⟩ (by decide)

def byPlate : List Relation :=
  [{ parent := "plate", child := "well" }, { parent := "run", child := "plate" }]

def byBatch : List Relation :=
  [{ parent := "batch", child := "well" }, { parent := "run", child := "batch" }]

def site : Formula :=
  ⟨"%site.code", "site", .code⟩

theorem declares_site : archive.catalog.Declares run.table.name "site" :=
  ⟨run.table, by decide, by decide⟩

theorem find?_stored {table : String} {id : RowId} (h : (archive.store.find? table id).isSome) :
    archive.store.find? table id = some (stored table id h) :=
  (Option.some_get h).symm

theorem reaches_plated : archive.Reaches definition.relations plated "site" byPlate run where
  ascends  := by decide
  rises    := by
    have hw : plated.parentId "plate" = some ⟨1⟩ := by decide
    have hp : plate.parentId "run" = some ⟨1⟩ := by decide
    exact .cons hw (find?_stored (by decide)) (.cons hp (find?_stored (by decide)) .nil)
  declares := declares_site

theorem reaches_batched : archive.Reaches definition.relations batched "site" byBatch run where
  ascends  := by decide
  rises    := by
    have hw : batched.parentId "batch" = some ⟨1⟩ := by decide
    have hb : batch.parentId "run" = some ⟨1⟩ := by decide
    exact .cons hw (find?_stored (by decide)) (.cons hb (find?_stored (by decide)) .nil)
  declares := declares_site

end Wells

open Wells in
theorem resolveRow_reaches_plated :
    Catalog.build definition = .ok archive.catalog ∧ archive.Holds plated ∧
    (∀ r ∈ plated.table.directParents, plated.table.formula? ⟨r.foreignKey, .code⟩ = none) ∧
    plated.table.formula? ⟨"origin", .code⟩ = some site ∧ ¬ plated.table.declares site.column ∧
    archive.Reaches definition.relations plated site.column byPlate run ∧
    ∃ up, ((ancestor archive plated site.column).run.run {}).1 = .ok up ∧
      Shown plated ((resolveRow archive plated).run {}).1 ⟨"origin", .code⟩
        (lookUp archive chainLimit up site).value := by
  have hb : Catalog.build definition = .ok archive.catalog := by decide
  have held : archive.Holds plated := by decide
  have hk : ∀ r ∈ plated.table.directParents,
      plated.table.formula? ⟨r.foreignKey, .code⟩ = none := by decide
  have hf : plated.table.formula? ⟨"origin", .code⟩ = some site := by decide
  have hd : ¬ plated.table.declares site.column := by decide
  have hp : archive.catalog.pathToAncestor plated.table.name site.column = some byPlate := by
    decide
  refine ⟨hb, held, hk, hf, hd, reaches_plated, ?_⟩
  obtain ⟨path, hp', _, h⟩ := resolveRow_reaches hb held hk hf hd reaches_plated .empty
  obtain rfl : path = byPlate := Option.some.inj (hp'.symm.trans hp)
  cases h
  case inl h =>
    obtain ⟨up, _, hv, hs⟩ := h
    exact ⟨up, hv, hs⟩
  case inr h =>
    obtain ⟨_, _, _, _, hn⟩ := h
    exact absurd rfl hn.ne

-- The first well is in the run as much as the second one.
open Wells in
theorem resolveRow_misses_reachable :
    ¬ ∀ (d : CatalogDefinition) (a : Archive) (row top : Row) (other : List Relation) (x : CellHalf)
      (f : Formula) (e : FormulaError), Catalog.build d = .ok a.catalog → a.Holds row →
      (∀ r ∈ row.table.directParents, row.table.formula? ⟨r.foreignKey, .code⟩ = none) →
      row.table.formula? x = some f → ¬ row.table.declares f.column →
      a.Reaches d.relations row f.column other top →
      ((ancestor a row f.column).run.run {}).1 = .error e →
      pin row x e ∈ ((resolveRow a row).run {}).1.2 →
      (∀ table parent, e ≠ .missingParent table parent) ∧
      ∀ table id, e ≠ .parent (.notFound table id) := by
  intro h
  have hs : ((ancestor archive batched site.column).run.run {}).1 =
      .error (.missingParent "well" "plate") := by
    have hw : batched.table.name = "well" := by decide
    have hp : batched.parentId "plate" = none := by decide
    have hpath : archive.catalog.pathToAncestor batched.table.name site.column = some byPlate := by
      decide
    rw [run_ancestor .empty]
    simp only [value_ancestor, hpath, ← hw]
    exact value_follow_of_breaks (by decide) (.unset hp)
  have hm : pin batched ⟨"origin", .code⟩ (.missingParent "well" "plate") ∈
      ((resolveRow archive batched).run {}).1.2 := by
    decide
  obtain ⟨hn, _⟩ := h definition archive batched run byBatch ⟨"origin", .code⟩ site
    (.missingParent "well" "plate") (by decide) (by decide) (by decide) (by decide) (by decide)
    reaches_batched hs hm
  exact hn "well" "plate" rfl

end Formula

end ReportExchange
