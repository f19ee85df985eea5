import Mathlib.Data.List.Nodup
import ReportExchange.Proofs.Ancestor.Inject
import ReportExchange.Proofs.Formula.Frame
import ReportExchange.Proofs.Lookup

namespace ReportExchange

-- The cell half that a formula reads.
def Formula.reference (f : Formula) : CellHalf :=
  ⟨f.column, f.half⟩

namespace Table

-- The formula that fills a cell half.
def formula? (t : Table) (x : CellHalf) : Option Formula :=
  ((t.column? x.column).bind (·.formulaFor x.half)).bind fun text =>
    (Formula.compile text).toOption

variable {t : Table} {x : CellHalf} {f : Formula}

theorem column?_eq_some_iff (hn : (t.columns.map (·.id)).Nodup) {id : String} {c : Column} :
    t.column? id = some c ↔ c ∈ t.columns ∧ c.id = id :=
  find?_key_eq_some_iff hn

theorem formula?_eq_some_iff (hn : (t.columns.map (·.id)).Nodup) :
    t.formula? x = some f ↔ ∃ c ∈ t.columns, c.id = x.column ∧
      ∃ text, c.formulaFor x.half = some text ∧ Formula.compile text = .ok f := by
  simp only [formula?, Option.bind_eq_some_iff, column?_eq_some_iff hn]
  constructor
  case mp =>
    rintro ⟨text, ⟨c, ⟨hc, hid⟩, ht⟩, hf⟩
    refine ⟨c, hc, hid, text, ht, ?_⟩
    cases e : Formula.compile text <;> simp_all [Except.toOption]
  case mpr =>
    rintro ⟨c, hc, hid, text, ht, hf⟩
    exact ⟨text, ⟨c, ⟨hc, hid⟩, ht⟩, by simp [hf, Except.toOption]⟩

theorem declares_iff_isSome {id : String} : t.declares id ↔ (t.column? id).isSome := by
  simp [declares, column?]

theorem declares_of_formula? (h : t.formula? x = some f) : t.declares x.column := by
  have ⟨_, hb, _⟩ := Option.bind_eq_some_iff.mp h
  have ⟨_, hc, _⟩ := Option.bind_eq_some_iff.mp hb
  exact Row.declares_of_column? (by simp [hc])

end Table

namespace Formula

variable {t : Table} {target : Target}

theorem hasFormula_of_formulaFor {c : Column} {half : Half} {text : String}
    (h : c.formulaFor half = some text) : c.hasFormula := by
  cases half <;> simp_all [Column.formulaFor, Column.hasFormula]

theorem mem_columnTargets {c : Column} :
    .ok target ∈ columnTargets c ↔ c.id = target.cell.column ∧
      ∃ text, c.formulaFor target.cell.half = some text ∧ compile text = .ok target.formula := by
  obtain ⟨⟨column, half⟩, f⟩ := target
  simp only [columnTargets, List.mem_filterMap, Option.map_eq_some_iff]
  constructor
  case mp =>
    rintro ⟨k, _, text, ht, e⟩
    split at e
    case h_2 => cases e
    case h_1 g hg =>
      cases e
      exact ⟨rfl, text, ht, hg⟩
  case mpr =>
    rintro ⟨rfl, text, ht, hf⟩
    refine ⟨half, ?_, text, ht, by simp [hf]⟩
    cases half <;> simp [Half.all]

theorem mem_targets_iff :
    target ∈ targets t ↔ ∃ c ∈ t.columns, c.id = target.cell.column ∧
      ∃ text, c.formulaFor target.cell.half = some text ∧ compile text = .ok target.formula := by
  have toOption_iff (x : Except (CellHalf × FormulaError) Target) :
      x.toOption = some target ↔ x = .ok target := by
    cases x <;> simp [Except.toOption]
  simp only [targets, allTargets, List.mem_filterMap, toOption_iff, exists_eq_right,
    List.mem_flatMap, mem_columnTargets, Table.formulaColumns, List.mem_filter]
  constructor
  case mp =>
    rintro ⟨c, ⟨hc, _⟩, h⟩
    exact ⟨c, hc, h⟩
  case mpr =>
    rintro ⟨c, hc, hid, text, ht, hf⟩
    exact ⟨c, ⟨hc, hasFormula_of_formulaFor ht⟩, hid, text, ht, hf⟩

theorem mem_targets (hn : (t.columns.map (·.id)).Nodup) :
    target ∈ targets t ↔ t.formula? target.cell = some target.formula :=
  mem_targets_iff.trans (Table.formula?_eq_some_iff hn).symm

theorem mem_cells_iff (hn : (t.columns.map (·.id)).Nodup) {x : CellHalf} :
    x ∈ (targets t).map (·.cell) ↔ (t.formula? x).isSome := by
  simp only [List.mem_map, Option.isSome_iff_exists]
  constructor
  case mp =>
    rintro ⟨target, hm, rfl⟩
    exact ⟨_, (mem_targets hn).mp hm⟩
  case mpr =>
    rintro ⟨f, hf⟩
    exact ⟨⟨x, f⟩, (mem_targets hn).mpr hf, rfl⟩

-- The halves of one column are different, and so are those of different columns.
theorem nodup_cells (hn : (t.columns.map (·.id)).Nodup) :
    ((targets t).map (·.cell)).Nodup := by
  have cell_column {c : Column} {x : CellHalf}
      (hx : x ∈ ((columnTargets c).filterMap (·.toOption)).map (·.cell)) : x.column = c.id := by
    simp only [List.mem_map, List.mem_filterMap] at hx
    obtain ⟨target, ⟨r, hr, e⟩, rfl⟩ := hx
    cases r <;> cases e
    exact (mem_columnTargets.mp hr).1.symm
  have hs : (targets t).map (·.cell) =
      t.formulaColumns.flatMap fun c => ((columnTargets c).filterMap (·.toOption)).map (·.cell) := by
    simp [targets, allTargets, List.filterMap_flatMap, List.map_flatMap]
  rw [hs, List.nodup_flatMap]
  constructor
  case left =>
    intro c _
    simp only [columnTargets, Half.all, List.filterMap_cons, List.filterMap_nil]
    cases c.formulaFor .code <;> cases c.formulaFor .label
    case none.none => simp
    case none.some label => cases hl : compile label <;> simp [hl, Except.toOption]
    case some.none code  => cases hc : compile code <;> simp [hc, Except.toOption]
    case some.some code label =>
      cases hc : compile code <;> cases hl : compile label <;>
        simp [hc, hl, Except.toOption]
  case right =>
    have hp : t.formulaColumns.Pairwise fun c d => c.id ≠ d.id :=
      List.pairwise_map.mp (hn.sublist (List.filter_sublist.map _))
    refine hp.imp fun {c d} hne x hx hy => hne ?_
    exact (cell_column hx).symm.trans (cell_column hy)

-- A formula has no answer in a row whose table lacks its column.
theorem resolve_eq_none_iff {f : Formula} {row : Row} :
    f.resolve row = none ↔ ¬ row.table.declares f.column := by
  rw [Table.declares_iff_isSome, resolve]
  cases row.table.column? f.column
  case none   => simp
  case some c =>
    dsimp only
    split
    case isTrue  => simp
    case isFalse => cases c.formulaFor f.half <;> simp

theorem formula?_of_deferred {f g : Formula} {row : Row} {text : String}
    (h : f.resolve row = some (.deferred text)) (hc : compile text = .ok g) :
    row.table.formula? f.reference = some g := by
  rw [resolve] at h
  split at h
  case h_1 => cases h
  case h_2 column hf =>
    dsimp only at h
    split at h
    case isTrue  => cases h
    case isFalse =>
      split at h
      case h_2 => cases h
      case h_1 hc' =>
        cases h
        simp [Table.formula?, reference, hf, hc', hc, Except.toOption]

-- A row of a table whose formulas can all be read has no faults before it is evaluated.
theorem malformedFaults_eq_nil {row : Row}
    (h : ∀ c ∈ row.table.columns, ∀ half text, c.formulaFor half = some text →
      ∃ f, compile text = .ok f) : malformedFaults row = [] := by
  simp only [malformedFaults, List.filterMap_eq_nil_iff, allTargets, List.mem_flatMap]
  rintro x ⟨c, hc, hx⟩
  simp only [columnTargets, List.mem_filterMap, Option.map_eq_some_iff] at hx
  obtain ⟨half, _, text, ht, rfl⟩ := hx
  have ⟨f, hf⟩ := h c (List.mem_filter.mp hc).1 half text ht
  simp [hf]

end Formula

namespace Row

-- What half a cell says.
def text (r : Row) (x : CellHalf) : String :=
  (r.half x.column x.half).getD ""

variable {r s : Row} {x : CellHalf} {v : String}

theorem text_of_half (h : r.half x.column x.half = some v) : r.text x = v := by
  simp [text, h]

theorem half_eq_some_text {column : String} (h : (r.get column).isSome) (half : Half) :
    r.half column half = some (r.text ⟨column, half⟩) := by
  have ⟨cell, hc⟩ := Option.isSome_iff_exists.mp h
  simp only [get] at hc
  simp [text, Row.half, hc]

-- A cell is what its two halves say, if there is one.
theorem get_eq_of_text {column : String} (hs : (r.get column).isSome ↔ (s.get column).isSome)
    (ht : ∀ half, r.text ⟨column, half⟩ = s.text ⟨column, half⟩) :
    r.get column = s.get column := by
  have hc := ht .code
  have hl := ht .label
  cases hr : r.get column <;> cases hs' : s.get column <;>
    simp_all [text, Row.half, get, Cell.half]
  case some.some a b =>
    cases a
    cases b
    simp_all

theorem text_setHalf (h : r.setHalf x.column x.half v = .ok s) (y : CellHalf) :
    s.text y = if y = x then v else r.text y := by
  obtain ⟨column, half⟩ := x
  obtain ⟨k, g⟩ := y
  have hg := get_of_put h k
  simp only [get] at hg
  simp only [text, Row.half, hg, CellHalf.mk.injEq]
  by_cases hk : k = column
  case neg => simp [hk]
  case pos =>
    subst hk
    by_cases hh : g = half
    case pos => simp [hh, Cell.half_setHalf]
    case neg =>
      simp only [hh, and_false, if_true, if_false, Option.map_some, Option.getD_some,
        Cell.half_setHalf]
      cases r.cells k <;> cases g <;> simp [Cell.half]

theorem isSome_get_setHalf (h : r.setHalf x.column x.half v = .ok s) (column : String) :
    (s.get column).isSome ↔ column = x.column ∨ (r.get column).isSome := by
  rw [get_of_put h column]
  by_cases hc : column = x.column <;> simp [hc]

theorem text_clearHalf (r : Row) (x y : CellHalf) :
    (r.clearHalf x.column x.half).text y = if y = x then "" else r.text y := by
  obtain ⟨column, half⟩ := x
  obtain ⟨k, g⟩ := y
  have hg := get_clearHalf r column k half
  simp only [get] at hg
  simp only [text, Row.half, hg, CellHalf.mk.injEq]
  by_cases hk : k = column
  case neg => simp [hk]
  case pos =>
    subst hk
    cases r.cells k
    case none => simp
    case some cell =>
      simp only [if_true, Option.bind_some, withoutHalf]
      cases cell
      cases g <;> cases half <;> split <;> simp_all [Cell.isEmpty, Cell.setHalf, Cell.half]

theorem text_cleared (r : Row) (ts : List Formula.Target) (x : CellHalf) :
    (Formula.cleared r ts).text x = if x ∈ ts.map (·.cell) then "" else r.text x := by
  simp only [Formula.cleared]
  induction ts generalizing r
  case nil => simp
  case cons t ts hi =>
    rw [List.foldl_cons, hi, text_clearHalf]
    by_cases ht : x ∈ ts.map (·.cell) <;> by_cases hx : x = t.cell <;> simp_all

-- The identity that a foreign key holds is read from its code.
theorem parentId_eq (r : Row) (parent : String) :
    r.parentId parent = (RowId.read? (r.text ⟨foreignKey parent, .code⟩)).filter (·.isSet) := by
  have hn : RowId.read? "" = none := by decide
  simp only [parentId, code, text, Row.half, Cell.half]
  cases r.cells (foreignKey parent) <;> simp [hn]

theorem parentId_congr {parent : String}
    (h : r.text ⟨foreignKey parent, .code⟩ = s.text ⟨foreignKey parent, .code⟩) :
    r.parentId parent = s.parentId parent := by
  simp [parentId_eq, h]

end Row

end ReportExchange
