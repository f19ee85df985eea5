import ReportExchange.Proofs.Catalog.Reordered
import ReportExchange.Proofs.Formula.Lockstep
import ReportExchange.Proofs.Formula.Resolution

namespace ReportExchange

-- The same row, of a table with its columns in another order.
structure Row.Reordered (r r' : Row) : Prop where
  table   : r.table.Reordered r'.table
  id      : r'.id = r.id
  version : r'.version = r.version
  cells   : r'.cells = r.cells

structure Archive.Reordered (a a' : Archive) : Prop where
  catalog : a.catalog.Reordered a'.catalog
  store   : a.store.Matches Row.Reordered a'.store

namespace Formula

theorem targets_perm {t t' : Table} (h : t.Reordered t') : (targets t).Perm (targets t') :=
  ((h.columns.filter _).flatMap_right _).filterMap _

-- Once both halves of a cell have been emptied, it is gone, whichever was the first.
theorem withoutHalf_comm (cell : Cell) (h k : Half) :
    (Row.withoutHalf cell h).bind (Row.withoutHalf · k) =
      (Row.withoutHalf cell k).bind (Row.withoutHalf · h) := by
  obtain ⟨code, label⟩ := cell
  by_cases hc : code = "" <;> by_cases hl : label = "" <;> cases h <;> cases k <;>
    simp [Row.withoutHalf, Cell.setHalf, Cell.isEmpty, hc, hl]

theorem clearHalf_comm (r : Row) (x y : CellHalf) :
    (r.clearHalf x.column x.half).clearHalf y.column y.half =
      (r.clearHalf y.column y.half).clearHalf x.column x.half := by
  refine Row.ext rfl rfl rfl (funext fun k => ?_)
  simp only [Row.clearHalf]
  split
  case isFalse => rfl
  case isTrue  =>
    split
    case isFalse => rfl
    case isTrue  =>
      cases r.cells k
      case none      => rfl
      case some cell => exact withoutHalf_comm cell x.half y.half

theorem cells_cleared {r r' : Row} (h : r'.cells = r.cells) (ts : List Target) :
    (cleared r' ts).cells = (cleared r ts).cells := by
  induction ts generalizing r r'
  case nil          => exact h
  case cons t ts hi =>
    apply hi
    simp only [Row.clearHalf, h]

theorem cleared_perm {r : Row} {ts ts' : List Target} (h : ts.Perm ts') :
    cleared r ts = cleared r ts' :=
  h.foldl_eq' (fun _ _ _ _ s => clearHalf_comm s _ _) r

end Formula

namespace Row.Reordered

variable {r r' : Row}

theorem text (h : r.Reordered r') (x : CellHalf) : r'.text x = r.text x := by
  simp only [Row.text, Row.half, h.cells]

theorem uncomputed (h : r.Reordered r') : r.uncomputed.Reordered r'.uncomputed := by
  have hr := r.spares_uncomputed
  have hr' := r'.spares_uncomputed
  refine ⟨?_, ?_, ?_, ?_⟩
  case refine_1 =>
    rw [hr.table, hr'.table]
    exact h.table
  case refine_2 => rw [hr.id, hr'.id, h.id]
  case refine_3 => rw [hr.version, hr'.version, h.version]
  case refine_4 =>
    rw [Row.uncomputed, Row.uncomputed, Formula.cleared_perm (Formula.targets_perm h.table)]
    exact Formula.cells_cleared h.cells _

end Row.Reordered

namespace Formula

variable {a a' : Archive} {row row' : Row} {x : CellHalf} {v : Except FormulaError String}

-- Ancestors are looked up in step: the way up is the same, and so are the rows on it.
theorem inStep_of_reordered (hs : a.Sound) (h : a.Reordered a') :
    InStep a a' fun _ r r' => a.Holds r ∧ r.Reordered r' := by
  have stored : a.store.Matches (fun r r' => a.Holds r ∧ r.Reordered r') a'.store := fun table =>
    (List.forall₂_and_left _ _).mpr ⟨fun _ hr => hs.holds_of_mem hr, h.store table⟩
  have known (name : String) :
      (a'.catalog.table? name).isSome = (a.catalog.table? name).isSome :=
    isSome_of_rel (h.catalog.table? name)
  refine ⟨?_, ?_, ?_⟩
  case refine_1 =>
    rintro f r r' ⟨held, hr⟩
    have hn := hs.catalog.columns _ held.mem
    have hh : r'.half f.column f.half = r.half f.column f.half := by simp only [Row.half, hr.cells]
    rw [resolve, resolve, hr.table.column? hn, hh]
  case refine_2 =>
    rintro f g r r' text hr _ _
    exact hr
  case refine_3 =>
    rintro f r r' ⟨held, hr⟩ _
    simp only [value_ancestor, Catalog.pathToAncestor_reordered h.catalog, hr.table.name]
    cases a.catalog.pathToAncestor r.table.name f.column
    case none      => exact .error _
    case some path =>
      refine follow_matched (S := fun _ r r' => a.Holds r ∧ r.Reordered r') ?_ ⟨held, hr⟩
      rintro up path r r' ⟨_, hr⟩
      refine ⟨hr.table.name, Row.parentId_congr (hr.text _), fun id => ?_⟩
      exact Archive.parent_matched known stored (fun _ _ hr => hr.2.id) up.parent id

theorem above_reordered (hs : a.Sound) (h : a.Reordered a') (held : a.Holds row)
    (hr : row.Reordered row') {f : Formula} (hd : ¬ row.table.declares f.column) :
    a'.above row' f = a.above row f := by
  have hi := inStep_of_reordered hs h
  exact (hi.above_eq (hi.ancestor ⟨held, hr⟩ (resolve_eq_none_iff.mpr hd))).symm

theorem Outcome.reordered (hs : a.Sound) (h : a.Reordered a') (held : a.Holds row)
    (hr : row.Reordered row') (ho : Outcome a row x v) : Outcome a' row' x v := by
  have hn := hs.catalog.columns _ held.mem
  have ht := hr.table
  induction ho with
  | above hf hd =>
    rw [← above_reordered hs h held hr hd]
    exact .above ((ht.formula? hn _).trans hf) (by rwa [ht.declares])
  | plain hf hd hp =>
    rw [← hr.text]
    exact .plain ((ht.formula? hn _).trans hf) (by rwa [ht.declares]) ((ht.formula? hn _).trans hp)
  | value hf _ hi     => exact .value ((ht.formula? hn _).trans hf) hi
  | failed hf hl _ hi => exact .failed ((ht.formula? hn _).trans hf) (by rwa [ht.looping_iff hn]) hi
  | looping hl        => exact .looping ((ht.looping_iff hn).mpr hl)

-- Faults are the same up to their order if they are the same at every cell.
theorem perm_of_faultsAt {faults faults' : List CellFault}
    (h : ∀ x, faultsAt faults' x = faultsAt faults x) : faults'.Perm faults := by
  refine List.perm_iff_count.mpr fun f => ?_
  have hc (l : List CellFault) : (faultsAt l f.cell).count f = l.count f :=
    List.count_filter (by simp)
  have hf := hc faults'
  rw [h, hc] at hf
  exact hf.symm

-- Two results with the same outcomes are the same.
theorem Computes.reordered {result result' : Row} {faults faults' : List CellFault}
    (hs : a.Sound) (h : a.Reordered a') (held : a.Holds row) (hr : row.Reordered row')
    (hc : Computes a row result faults) (hc' : Computes a' row' result' faults') :
    (∀ column, result'.get column = result.get column) ∧ faults'.Perm faults := by
  have hn := hs.catalog.columns _ held.mem
  have hf (x : CellHalf) : row'.table.formula? x = row.table.formula? x := hr.table.formula? hn x
  have carry {x : CellHalf} {v : Except FormulaError String}
      (ho : Outcome a row.uncomputed x v) : Outcome a' row'.uncomputed x v :=
    ho.reordered hs h (held.of_table_eq row.spares_uncomputed.table) hr.uncomputed
  have back {x : CellHalf} {v : Except FormulaError String}
      (ho : Outcome a' row'.uncomputed x v) : Outcome a row.uncomputed x v := by
    have hi := ho.isSome
    rw [row'.spares_uncomputed.table, hf] at hi
    obtain ⟨w, hw, _⟩ := hc.total x hi
    cases ho.unique (carry hw)
    exact hw
  have shown (x : CellHalf) (v) (ho : Outcome a row.uncomputed x v) :
      result'.text x = result.text x ∧ faultsAt faults' x = faultsAt faults x := by
    match v with
    | .ok w =>
      have ⟨ht, hz⟩ := hc.value x w ho
      have ⟨ht', hz'⟩ := hc'.value x w (carry ho)
      exact ⟨(Row.text_of_half ht').trans (Row.text_of_half ht).symm, hz'.trans hz.symm⟩
    | .error e =>
      have ⟨ht, hz⟩ := hc.fault x e ho
      have ⟨ht', hz'⟩ := hc'.fault x e (carry ho)
      have hp : pin row' x e = pin row x e := by simp [pin, hr.table.name, hr.id]
      exact ⟨ht'.trans ht.symm, hz'.trans (hp ▸ hz.symm)⟩
  have same (x : CellHalf) :
      result'.text x = result.text x ∧ faultsAt faults' x = faultsAt faults x := by
    cases hx : row.table.formula? x
    case some =>
      obtain ⟨v, ho, _⟩ := hc.total x (by simp [hx])
      exact shown x v ho
    case none =>
      constructor
      case left => rw [hc'.plain x ((hf x).trans hx), hc.plain x hx, hr.text]
      case right =>
        have hz : faultsAt faults x = [] := faultsAt_eq_nil.mpr fun f hm e => by
          simpa [e, hx] using hc.only f hm
        have hz' : faultsAt faults' x = [] := faultsAt_eq_nil.mpr fun f hm e => by
          simpa [e, hf, hx] using hc'.only f hm
        exact hz'.trans hz.symm
  have held_cells (column : String) : (result'.get column).isSome ↔ (result.get column).isSome := by
    rw [hc'.cells, hc.cells, Row.get, Row.get, hr.uncomputed.cells]
    apply or_congr_right
    exact exists_congr fun half => exists_congr fun v => ⟨back, carry⟩
  exact ⟨fun column => Row.get_eq_of_text (held_cells column) fun half => (same _).1,
    perm_of_faultsAt fun x => (same x).2⟩

theorem anchored_reordered {c c' : Catalog} {t t' : Table} (h : c.Reordered c')
    (ht : t.Reordered t') (hn : (t.columns.map (·.id)).Nodup) (ha : t.Anchored c) :
    t'.Anchored c' := by
  intro x f hf hd up rest hp
  rw [ht.formula? hn] at hf ⊢
  rw [ht.declares] at hd
  rw [Catalog.pathToAncestor_reordered h, ht.name] at hp
  exact ha x f hf hd up rest hp

-- If no formula of the row climbs through a computed key, another order of columns makes no
-- difference: the cells come to the same, and the same ones fail for the same reasons.
theorem resolveRow_reordered {d d' : CatalogDefinition} {cache : ParentCache} (hs : a.Sound)
    (hb : Catalog.build d = .ok a.catalog) (hd : d.Reordered d') (held : a.Holds row)
    (ha : row.table.Anchored a.catalog) (hc : cache.Faithful a) :
    ∃ c', Catalog.build d' = .ok c' ∧ ∀ (store' : Store) (row' : Row) (cache' : ParentCache),
      a.store.Matches Row.Reordered store' → row.Reordered row' →
      Archive.Holds ⟨c', store'⟩ row' → cache'.Faithful ⟨c', store'⟩ →
      (∀ column, ((resolveRow ⟨c', store'⟩ row').run cache').1.1.get column =
        ((resolveRow a row).run cache).1.1.get column) ∧
      ((resolveRow ⟨c', store'⟩ row').run cache').1.2.Perm ((resolveRow a row).run cache).1.2 := by
  obtain ⟨c', hb', hcat⟩ := Catalog.build_reordered hd hb
  refine ⟨c', hb', fun store' row' cache' hstore hr held' hc' => ?_⟩
  have hn := hs.catalog.columns _ held.mem
  rw [(steady_resolveRow row cache hc).1, (steady_resolveRow row' cache' hc').1]
  have ho := computes_of_anchored hb held ha
  have ho' := computes_of_anchored (a := ⟨c', store'⟩) hb' held'
    (anchored_reordered hcat hr.table hn ha)
  exact ho.reordered hs ⟨hcat, hstore⟩ held hr ho'

end Formula

-- The definition with the columns of every table from last to first.
def CatalogDefinition.reverse (d : CatalogDefinition) : CatalogDefinition :=
  { d with tables := d.tables.map fun t => { t with columns := t.columns.reverse } }

theorem CatalogDefinition.reordered_reverse (d : CatalogDefinition) : d.Reordered d.reverse where
  tables    := by
    refine List.forall₂_map_right_iff.mpr (List.forall₂_same.mpr fun t _ => ?_)
    exact ⟨rfl, rfl, rfl, (List.reverse_perm _).symm⟩
  relations := rfl

namespace Formula

namespace Assays

def reversed : Archive :=
  let catalog := (Catalog.build definition.reverse).toOption.getD ⟨[]⟩
  { catalog, store := (Store.ofTables catalog records).toOption.getD {} }

def reversedAssay : Row :=
  (reversed.store.rows "assay").head (by decide)

theorem sound : archive.Sound :=
  ⟨⟨definition, by decide⟩, by decide⟩

theorem assay_reordered : assay.Reordered reversedAssay := by
  refine ⟨⟨rfl, ?_, rfl, rfl, rfl, rfl⟩, rfl, rfl, rfl⟩
  decide

def plate : Row :=
  (archive.store.rows "plate").head (by decide)

def reversedPlate : Row :=
  (reversed.store.rows "plate").head (by decide)

theorem plate_reordered : plate.Reordered reversedPlate := by
  refine ⟨⟨rfl, ?_, rfl, rfl, rfl, rfl⟩, rfl, rfl, rfl⟩
  decide

theorem store_reordered : archive.store.Matches Row.Reordered reversed.store :=
  Store.matches_of_shelves
    (.cons ⟨rfl, .cons plate_reordered .nil⟩ (.cons ⟨rfl, .cons assay_reordered .nil⟩ .nil))

end Assays

open Assays in
theorem resolveRow_reordered_assay :
    assay.table.Anchored archive.catalog ∧
    (∀ column, ((resolveRow reversed reversedAssay).run {}).1.1.get column =
      ((resolveRow archive assay).run {}).1.1.get column) ∧
    ((resolveRow reversed reversedAssay).run {}).1.2.Perm ((resolveRow archive assay).run {}).1.2 := by
  have held : archive.Holds assay := by decide
  have ha : assay.table.Anchored archive.catalog := Table.anchored_of_keys held (by decide)
  obtain ⟨c', hb', h⟩ := resolveRow_reordered sound (by decide) definition.reordered_reverse held ha
    .empty
  have hr : Catalog.build definition.reverse = .ok reversed.catalog := by decide
  obtain rfl : c' = reversed.catalog := Except.ok.inj (hb'.symm.trans hr)
  exact ⟨ha, h reversed.store reversedAssay {} store_reordered assay_reordered (by decide) .empty⟩

-- Tubes in racks. The key of a tube's rack is computed from its slot, and its origin is that of the
-- rack.
namespace Racks

def definition : CatalogDefinition where
  tables := [
    { name := "rack", columns := [{ id := "site" }] },
    { name := "tube",
      columns := [
        { id := "slot" },
        { id := "origin", codeFormula := some "%site.code" },
        { id := "rackId", codeFormula := some "%slot.code" }] }]
  relations := [{ parent := "rack", child := "tube" }]

def records : List (String × List Record) := [
  ("rack", [{ id := ⟨1⟩, cells := [("site", .plain "north")] }]),
  ("tube", [{ id := ⟨1⟩, cells := [("slot", .plain "1")] }])]

def archiveOf (d : CatalogDefinition) : Archive :=
  let catalog := (Catalog.build d).toOption.getD ⟨[]⟩
  { catalog, store := (Store.ofTables catalog records).toOption.getD {} }

def archive : Archive :=
  archiveOf definition

def reversed : Archive :=
  archiveOf definition.reverse

def rack : Row :=
  (archive.store.rows "rack").head (by decide)

def reversedRack : Row :=
  (reversed.store.rows "rack").head (by decide)

def tube : Row :=
  (archive.store.rows "tube").head (by decide)

def reversedTube : Row :=
  (reversed.store.rows "tube").head (by decide)

theorem rack_reordered : rack.Reordered reversedRack := by
  refine ⟨⟨rfl, ?_, rfl, rfl, rfl, rfl⟩, rfl, rfl, rfl⟩
  decide

theorem tube_reordered : tube.Reordered reversedTube := by
  refine ⟨⟨rfl, ?_, rfl, rfl, rfl, rfl⟩, rfl, rfl, rfl⟩
  decide

theorem store_reordered : archive.store.Matches Row.Reordered reversed.store :=
  Store.matches_of_shelves
    (.cons ⟨rfl, .cons rack_reordered .nil⟩ (.cons ⟨rfl, .cons tube_reordered .nil⟩ .nil))

end Racks

-- If the origin stands before the key, the rack of the tube is not known yet when it is looked for.
open Racks in
theorem resolveRow_order_matters :
    ¬ ∀ (d d' : CatalogDefinition) (a a' : Archive) (row row' : Row),
      a.Sound → a'.Sound → Catalog.build d = .ok a.catalog → Catalog.build d' = .ok a'.catalog →
      d.Reordered d' → a.store.Matches Row.Reordered a'.store → a.Holds row → a'.Holds row' →
      row.Reordered row' → ∀ column,
      ((resolveRow a' row').run {}).1.1.get column = ((resolveRow a row).run {}).1.1.get column := by
  intro h
  have hb : Catalog.build definition = .ok archive.catalog := by decide
  have hr : Catalog.build definition.reverse = .ok reversed.catalog := by decide
  have ho := h definition definition.reverse archive reversed tube reversedTube
    ⟨⟨_, hb⟩, by decide⟩ ⟨⟨_, hr⟩, by decide⟩ hb hr definition.reordered_reverse store_reordered
    (by decide) (by decide) tube_reordered "origin"
  have hv : ((resolveRow reversed reversedTube).run {}).1.1.get "origin" = some ⟨"north", ""⟩ := by
    decide +kernel
  have hn : ((resolveRow archive tube).run {}).1.1.get "origin" = none := by
    decide +kernel
  rw [hv, hn] at ho
  cases ho

end Formula

end ReportExchange
