import ReportExchange.Proofs.Formula.Outcome

namespace ReportExchange

namespace Row

variable {r s : Row} {x y : CellHalf} {v w : String}

theorem half_setHalf_self (h : r.setHalf x.column x.half v = .ok s) :
    s.half x.column x.half = some v := by
  have hs : (s.get x.column).isSome := (isSome_get_setHalf h x.column).mpr (.inl rfl)
  have ht : s.text x = v := by simp [text_setHalf h]
  exact ht ▸ half_eq_some_text hs x.half

theorem half_setHalf_of_ne (h : r.setHalf x.column x.half v = .ok s) (hne : y ≠ x)
    (hy : r.half y.column y.half = some w) : s.half y.column y.half = some w := by
  have hr : (r.get y.column).isSome := by
    simp only [half, Option.map_eq_some_iff] at hy
    obtain ⟨cell, hc, _⟩ := hy
    simp [get, hc]
  have hs : (s.get y.column).isSome := (isSome_get_setHalf h y.column).mpr (.inr hr)
  have ht : s.text y = w := by simp [text_setHalf h, hne, text_of_half hy]
  exact ht ▸ half_eq_some_text hs y.half

end Row

namespace Formula

variable {a : Archive} {row : Row} {s : Sweep} {x : CellHalf} {f : Formula}
variable {v : Except FormulaError String}

-- The faults of one cell.
def faultsAt (faults : List CellFault) (x : CellHalf) : List CellFault :=
  faults.filter (·.cell = x)

theorem faultsAt_append (faults more : List CellFault) (x : CellHalf) :
    faultsAt (faults ++ more) x = faultsAt faults x ++ faultsAt more x :=
  List.filter_append ..

theorem faultsAt_pin (row : Row) (x y : CellHalf) (e : FormulaError) :
    faultsAt [pin row x e] y = if x = y then [pin row x e] else [] := by
  simp [faultsAt, pin, List.filter_cons]

theorem faultsAt_eq_nil {faults : List CellFault} :
    faultsAt faults x = [] ↔ ∀ f ∈ faults, f.cell ≠ x := by
  simp [faultsAt]

namespace Sweep

-- What a sweep shows of a cell that no longer waits.
def Shows (row : Row) (s : Sweep) (x : CellHalf) : Except FormulaError String → Prop
  | .ok v    => s.row.half x.column x.half = some v ∧ faultsAt s.faults x = []
  | .error e => s.row.text x = "" ∧ faultsAt s.faults x = [pin row x e]

-- What is known at any time of a sweep over the formulas of a row: a cell waits, empty and without
-- a fault, or it shows its outcome. The row is as it was before any formula had been computed.
structure Sure (a : Archive) (row : Row) (s : Sweep) : Prop where
  table    : s.row.table = row.table
  id       : s.row.id = row.id
  version  : s.row.version = row.version
  distinct : s.pending.Nodup
  waiting  : ∀ x ∈ s.pending,
    (row.table.formula? x).isSome ∧ s.row.text x = "" ∧ faultsAt s.faults x = []
  known    : ∀ x, (row.table.formula? x).isSome → x ∉ s.pending →
    ¬ row.table.Looping x ∧ ∃ v, Outcome a row x v ∧ s.Shows row x v
  plain    : ∀ x, row.table.formula? x = none → s.row.text x = row.text x
  failed   : ∀ x, x ∈ s.failed ↔ faultsAt s.faults x ≠ []
  faults   : ∀ f ∈ s.faults, (row.table.formula? f.cell).isSome
  cells    : ∀ column, (s.row.get column).isSome →
    (row.get column).isSome ∨ ∃ half v, Outcome a row ⟨column, half⟩ (.ok v)
  kept     : ∀ column, (row.get column).isSome → (s.row.get column).isSome

-- A cell of the table takes its value and no longer waits.
theorem exists_settle (hd : s.row.table.declares x.column) (w : String) :
    ∃ r, s.row.setHalf x.column x.half w = .ok r ∧
      s.settle x w = { s with row := r, pending := s.pending.erase x } := by
  obtain ⟨r, hr⟩ : ∃ r, s.row.setHalf x.column x.half w = .ok r := Row.exists_put hd _
  exact ⟨r, hr, by simp [settle, hr, Except.toOption]⟩

namespace Sure

-- An evaluation either waits for a cell that waits itself, or comes to the outcome.
theorem evaluate_cases (hs : s.Sure a row) (held : a.Holds row)
    (ha : row.table.Anchored a.catalog) (hf : row.table.formula? x = some f) :
    (evaluate a s f).value = .ok none ∧ f.reference ∈ s.pending ∨
    ∃ v, (evaluate a s f).value = v.map some ∧ Outcome a row x v ∧ ¬ row.table.Looping x := by
  rw [value_evaluate, hs.table]
  by_cases hd : row.table.declares f.column
  case neg =>
    have hp : row.table.formula? f.reference = none := formula?_eq_none_of_not_declares hd
    have hu : a.above s.row f = a.above row f :=
      Archive.above_congr held hs.table fun up rest hp => hs.plain _ (ha x f hf hd up rest hp)
    exact .inr ⟨a.above row f, by simp [hd, hu], .above hf hd, not_looping_of_plain hf hp⟩
  case pos =>
    simp only [hd, if_true, hs.failed]
    cases hr : row.table.formula? f.reference
    case none =>
      have hp : f.reference ∉ s.pending := fun hp => by simpa [hr] using (hs.waiting _ hp).1
      have hn : faultsAt s.faults f.reference = [] :=
        faultsAt_eq_nil.mpr fun g hg e => by simpa [e, hr] using hs.faults g hg
      refine .inr ⟨.ok (row.text f.reference), ?_, .plain hf hd hr, not_looping_of_plain hf hr⟩
      simp [hp, hn, hs.plain _ hr, Except.map]
    case some =>
      by_cases hp : f.reference ∈ s.pending
      case pos => exact .inl ⟨by simp [hp, (hs.waiting _ hp).2.2], hp⟩
      case neg =>
        have ⟨hl, v, ho, hv⟩ := hs.known f.reference (by simp [hr]) hp
        rw [← (refers_reference hf).looping_iff] at hl
        match v with
        | .ok w =>
          refine .inr ⟨.ok w, ?_, .value hf ho, hl⟩
          simp [hp, hv.2, Row.text_of_half hv.1, Except.map]
        | .error e =>
          refine .inr ⟨_, ?_, .failed hf hl ho, hl⟩
          simp [hv.2, Except.map]

theorem settle (hs : s.Sure a row) {w : String} (hx : x ∈ s.pending)
    (ho : Outcome a row x (.ok w)) (hl : ¬ row.table.Looping x) : (s.settle x w).Sure a row := by
  obtain ⟨hf, _, hz⟩ := hs.waiting x hx
  obtain ⟨f, hf⟩ := Option.isSome_iff_exists.mp hf
  have hd : s.row.table.declares x.column := hs.table ▸ Table.declares_of_formula? hf
  obtain ⟨r, hr, hw⟩ := exists_settle hd w
  obtain ⟨ht, hi, hv⟩ := Row.frame_of_put hr
  rw [hw]
  refine {
    table    := ht.trans hs.table
    id       := hi.trans hs.id
    version  := hv.trans hs.version
    distinct := hs.distinct.erase x
    failed   := hs.failed
    faults   := hs.faults
    waiting  := fun y hy => ?_
    known    := fun y hy hn => ?_
    plain    := fun y hy => ?_
    cells    := fun column hc => ?_
    kept     := fun column hc => (Row.isSome_get_setHalf hr column).mpr (.inr (hs.kept column hc)) }
  case refine_1 =>
    obtain ⟨hne, hy⟩ := hs.distinct.mem_erase_iff.mp hy
    simpa [Row.text_setHalf hr, hne] using hs.waiting y hy
  case refine_2 =>
    by_cases e : y = x
    case pos =>
      subst e
      exact ⟨hl, .ok w, ho, Row.half_setHalf_self hr, hz⟩
    case neg =>
      obtain ⟨hl, v, ho, hv⟩ := hs.known y hy fun hp => hn (hs.distinct.mem_erase_iff.mpr ⟨e, hp⟩)
      refine ⟨hl, v, ho, ?_⟩
      cases v
      case ok    => exact ⟨Row.half_setHalf_of_ne hr e hv.1, hv.2⟩
      case error => exact ⟨by simpa [Row.text_setHalf hr, e] using hv.1, hv.2⟩
  case refine_3 =>
    have hne : y ≠ x := fun e => by simp [e, hf] at hy
    simpa [Row.text_setHalf hr, hne] using hs.plain y hy
  case refine_4 =>
    cases (Row.isSome_get_setHalf hr column).mp hc
    case inl e  => exact .inr ⟨x.half, w, e ▸ ho⟩
    case inr hc => exact hs.cells column hc

theorem fail (hs : s.Sure a row) {e : FormulaError} (hx : x ∈ s.pending)
    (ho : Outcome a row x (.error e)) (hl : ¬ row.table.Looping x) : (s.fail x e).Sure a row := by
  obtain ⟨_, ht, hz⟩ := hs.waiting x hx
  have hp : pin s.row x e = pin row x e := by simp [pin, hs.table, hs.id]
  refine {
    table    := hs.table
    id       := hs.id
    version  := hs.version
    distinct := hs.distinct.erase x
    plain    := hs.plain
    cells    := hs.cells
    kept     := hs.kept
    waiting  := fun y hy => ?_
    known    := fun y hy hn => ?_
    failed   := fun y => ?_
    faults   := fun f hf => ?_ }
  case refine_1 =>
    obtain ⟨hne, hy⟩ := hs.distinct.mem_erase_iff.mp hy
    simpa [Sweep.fail, faultsAt_append, faultsAt_pin, hne.symm] using hs.waiting y hy
  case refine_2 =>
    by_cases e' : y = x
    case pos =>
      subst e'
      exact ⟨hl, .error e, ho, ht, by simp [Sweep.fail, faultsAt_append, faultsAt_pin, hz, hp]⟩
    case neg =>
      obtain ⟨hl, v, ho, hv⟩ := hs.known y hy fun hp => hn (hs.distinct.mem_erase_iff.mpr ⟨e', hp⟩)
      refine ⟨hl, v, ho, ?_⟩
      cases v
      all_goals simpa [Shows, Sweep.fail, faultsAt_append, faultsAt_pin, Ne.symm e'] using hv
  case refine_3 =>
    by_cases e' : y = x
    case pos => simp [Sweep.fail, faultsAt_append, faultsAt_pin, e']
    case neg => simp [Sweep.fail, faultsAt_append, faultsAt_pin, e', Ne.symm e', hs.failed]
  case refine_4 =>
    cases List.mem_append.mp hf
    case inl hf => exact hs.faults f hf
    case inr hf =>
      cases List.mem_singleton.mp hf
      exact ho.isSome

theorem absorb (hs : s.Sure a row) (hx : x ∈ s.pending) (ho : Outcome a row x v)
    (hl : ¬ row.table.Looping x) : (s.absorb x (v.map some)).Sure a row := by
  match v with
  | .ok w    => exact hs.settle hx ho hl
  | .error e => exact hs.fail hx ho hl

-- What waits when nothing can be evaluated any more waits for itself in the end.
theorem looping_of_stuck (hs : s.Sure a row) (held : a.Holds row)
    (ha : row.table.Anchored a.catalog) (hn : (row.table.columns.map (·.id)).Nodup)
    (hu : s.Stuck a (targets row.table)) (hx : x ∈ s.pending) : row.table.Looping x := by
  refine Table.looping_of_closed (fun y hy => ?_) hx
  have ⟨f, hf⟩ := Option.isSome_iff_exists.mp (hs.waiting y hy).1
  refine ⟨f.reference, ?_, refers_reference hf⟩
  cases hs.evaluate_cases held ha hf
  case inl h => exact h.2
  case inr h =>
    have ⟨v, hv, _⟩ := h
    rw [hu ⟨y, f⟩ ((mem_targets hn).mpr hf) hy] at hv
    cases v <;> cases hv

end Sure

-- The sweep with which the resolution of a row begins.
def start (row : Row) : Sweep :=
  ⟨row.uncomputed, (targets row.table).map (·.cell), [], malformedFaults row⟩

end Sweep

end Formula

namespace Row

theorem spares_uncomputed (r : Row) : Spares (Formula.computed r.table) r r.uncomputed :=
  Formula.spares_cleared fun _ ht => Formula.target_mem_computed ht

theorem text_uncomputed {r : Row} (hn : (r.table.columns.map (·.id)).Nodup) (x : CellHalf) :
    r.uncomputed.text x = if (r.table.formula? x).isSome then "" else r.text x := by
  simp [uncomputed, text_cleared, Formula.mem_cells_iff hn]

end Row

namespace Formula

variable {a : Archive} {row : Row} {x : CellHalf} {v : Except FormulaError String}

open Sweep

theorem sure_start (hn : (row.table.columns.map (·.id)).Nodup) (hm : malformedFaults row = []) :
    (start row).Sure a row.uncomputed := by
  have hs := row.spares_uncomputed
  refine {
    table    := rfl
    id       := rfl
    version  := rfl
    distinct := nodup_cells hn
    waiting  := fun x hx => ?_
    known    := fun x hf hx => ?_
    plain    := fun _ _ => rfl
    failed   := fun x => by simp [start, hm, faultsAt]
    faults   := by simp [start, hm]
    cells    := fun _ => .inl
    kept     := fun _ => id }
  case refine_1 =>
    have hf := (mem_cells_iff hn).mp hx
    exact ⟨hs.table ▸ hf, by simp [start, Row.text_uncomputed hn, hf], by simp [start, hm, faultsAt]⟩
  case refine_2 => exact absurd ((mem_cells_iff hn).mpr (hs.table ▸ hf)) hx

-- A row and its faults are what the outcomes of the formula cells say, and else the row that was
-- there before.
structure Computes (a : Archive) (row result : Row) (faults : List CellFault) : Prop where
  table   : result.table = row.table
  id      : result.id = row.id
  version : result.version = row.version
  plain   : ∀ x, row.table.formula? x = none → result.text x = row.text x
  total   : ∀ x, (row.table.formula? x).isSome → ∃! v, Outcome a row.uncomputed x v
  value   : ∀ x v, Outcome a row.uncomputed x (.ok v) →
    result.half x.column x.half = some v ∧ faultsAt faults x = []
  fault   : ∀ x e, Outcome a row.uncomputed x (.error e) →
    result.text x = "" ∧ faultsAt faults x = [pin row x e]
  only    : ∀ f ∈ faults, (row.table.formula? f.cell).isSome
  cells   : ∀ column, (result.get column).isSome ↔
    (row.uncomputed.get column).isSome ∨ ∃ half v, Outcome a row.uncomputed ⟨column, half⟩ (.ok v)

-- The faults of the cells that are left waiting at the end.
def leftFaults (row : Row) (pending : List CellHalf) : List CellFault :=
  (((targets row.table).map (·.cell)).filter (· ∈ pending)).map fun cell =>
    pin row cell (.unresolved cell.column cell.half)

theorem faultsAt_leftFaults (hn : (row.table.columns.map (·.id)).Nodup) (pending : List CellHalf)
    (x : CellHalf) : faultsAt (leftFaults row pending) x =
      if (row.table.formula? x).isSome ∧ x ∈ pending
      then [pin row x (.unresolved x.column x.half)] else [] := by
  have hd := (nodup_cells hn).filter (· ∈ pending)
  have hp : (fun f : CellFault => decide (f.cell = x)) ∘
      (fun cell => pin row cell (.unresolved cell.column cell.half)) = (decide <| · = x) := rfl
  rw [faultsAt, leftFaults, List.filter_map, hp, filter_eq_of_nodup hd]
  simp only [List.mem_filter, mem_cells_iff hn, decide_eq_true_eq]
  split <;> rfl

-- A sweep that has come to its end gives the row and its faults.
theorem Sweep.Sure.computes {s : Sweep} (hs : s.Sure a row.uncomputed) (held : a.Holds row)
    (ha : row.table.Anchored a.catalog) (hn : (row.table.columns.map (·.id)).Nodup)
    (hu : s.Stuck a (targets row.table)) :
    Computes a row s.row (s.faults ++ leftFaults row s.pending) := by
  have hr := row.spares_uncomputed
  have ht : row.uncomputed.table = row.table := hr.table
  have hpin (x : CellHalf) (e : FormulaError) : pin row.uncomputed x e = pin row x e := by
    simp [pin, ht, hr.id]
  have hloop {x : CellHalf} (hx : x ∈ s.pending) : row.uncomputed.table.Looping x :=
    hs.looping_of_stuck (held.of_table_eq ht) (ht ▸ ha) (ht ▸ hn) (ht ▸ hu) hx
  -- Each formula cell shows its outcome, whether it has been evaluated or is left waiting.
  have shows (x : CellHalf) (v) (ho : Outcome a row.uncomputed x v) :
      match v with
      | .ok w    => s.row.half x.column x.half = some w ∧
          faultsAt (s.faults ++ leftFaults row s.pending) x = []
      | .error e => s.row.text x = "" ∧
          faultsAt (s.faults ++ leftFaults row s.pending) x = [pin row x e] := by
    by_cases hx : x ∈ s.pending
    case pos =>
      have ⟨hf, hz, hn'⟩ := hs.waiting x hx
      cases ho.eq_of_looping (hloop hx)
      exact ⟨hz, by simp [faultsAt_append, faultsAt_leftFaults hn, hn', hx, ← ht, hf]⟩
    case neg =>
      have ⟨_, w, ho', hv⟩ := hs.known x ho.isSome hx
      cases ho.unique ho'
      match v with
      | .ok w    => exact ⟨hv.1, by simp [faultsAt_append, faultsAt_leftFaults hn, hv.2, hx]⟩
      | .error e =>
        exact ⟨hv.1, by simp [faultsAt_append, faultsAt_leftFaults hn, hv.2, hx, hpin]⟩
  refine {
    table   := hs.table.trans ht
    id      := hs.id.trans hr.id
    version := hs.version.trans hr.version
    plain   := fun x hx => ?_
    total   := fun x hx => ?_
    value   := fun x v ho => shows x _ ho
    fault   := fun x e ho => shows x _ ho
    only    := fun f hf => ?_
    cells   := fun column => ⟨hs.cells column, fun hc => ?_⟩ }
  case refine_1 => simpa [Row.text_uncomputed hn, hx] using hs.plain x (by simpa [ht] using hx)
  case refine_2 =>
    by_cases hp : x ∈ s.pending
    case pos => exact ⟨_, .looping (hloop hp), fun w ho => ho.eq_of_looping (hloop hp)⟩
    case neg =>
      have ⟨_, v, ho, _⟩ := hs.known x (ht ▸ hx) hp
      exact ⟨v, ho, fun w ho' => ho'.unique ho⟩
  case refine_3 =>
    cases List.mem_append.mp hf
    case inl hf => exact ht ▸ hs.faults f hf
    case inr hf =>
      obtain ⟨x, hx, rfl⟩ := List.mem_map.mp hf
      exact (mem_cells_iff hn).mp (List.mem_filter.mp hx).1
  case refine_4 =>
    cases hc
    case inl hc => exact hs.kept column hc
    case inr ho =>
      obtain ⟨half, v, ho⟩ := ho
      have hv := (shows _ _ ho).1
      simp only [Row.half, Option.map_eq_some_iff] at hv
      obtain ⟨cell, hc, _⟩ := hv
      simp [Row.get, hc]

-- The resolution of a row with a bound of its own on the number of passes.
def resolveWithin (a : Archive) (bound : Nat) (row : Row) :
    StateM ParentCache (Row × List CellFault) := do
  let s ← passes a (targets row.table) bound (start row)
  return (s.row, s.faults ++ leftFaults row s.pending)

theorem resolveWithin_length (a : Archive) (row : Row) :
    resolveWithin a ((targets row.table).length + 1) row = resolveRow a row :=
  rfl

theorem fresh_resolveRow (a : Archive) (row : Row) :
    fresh (resolveRow a row) =
      let s := fresh (passes a (targets row.table) ((targets row.table).length + 1) (start row))
      (s.row, s.faults ++ leftFaults row s.pending) :=
  rfl

theorem steady_resolveWithin (bound : Nat) (row : Row) : Steady a (resolveWithin a bound row) :=
  (steady_passes _ _ _).bind fun _ => .pure _

variable {d : CatalogDefinition}

theorem malformedFaults_of_build (hb : Catalog.build d = .ok a.catalog) (held : a.Holds row) :
    malformedFaults row = [] :=
  malformedFaults_eq_nil fun _ hc _ _ ht => Catalog.compiles_of_build hb held.mem hc ht

theorem computes_of_anchored (hb : Catalog.build d = .ok a.catalog) (held : a.Holds row)
    (ha : row.table.Anchored a.catalog) :
    Computes a row (fresh (resolveRow a row)).1 (fresh (resolveRow a row)).2 := by
  have hn := (Catalog.sound_of_build hb).columns _ held.mem
  have ht : row.uncomputed.table = row.table := row.spares_uncomputed.table
  have hs : (fresh (passes a (targets row.table) ((targets row.table).length + 1)
      (start row))).Sure a row.uncomputed := by
    refine fresh_passes_induction (fun t hm s hp hs => ?_)
      (sure_start hn (malformedFaults_of_build hb held))
    have hf : row.uncomputed.table.formula? t.cell = some t.formula := ht ▸ (mem_targets hn).mp hm
    cases hs.evaluate_cases (held.of_table_eq ht) (ht ▸ ha) hf
    case inl h =>
      rw [h.1]
      exact hs
    case inr h =>
      obtain ⟨v, hv, ho, hl⟩ := h
      rw [hv]
      exact hs.absorb hp ho hl
  have hu : (start row).pending.length < (targets row.table).length + 1 := by simp [start]
  exact hs.computes held ha hn (stuck_passes hu)

-- Resolving a row computes the outcomes of its formula cells, and no larger number of passes would
-- give anything else.
theorem resolveRow_computes (hb : Catalog.build d = .ok a.catalog) (held : a.Holds row)
    (hk : ∀ r ∈ row.table.directParents, row.table.formula? ⟨r.foreignKey, .code⟩ = none)
    {cache : ParentCache} (hc : cache.Faithful a) :
    Computes a row ((resolveRow a row).run cache).1.1 ((resolveRow a row).run cache).1.2 ∧
    ∀ bound, (targets row.table).length < bound →
      ((resolveWithin a bound row).run cache).1 = ((resolveRow a row).run cache).1 := by
  have hv := (steady_resolveRow row cache hc).1
  constructor
  case left =>
    rw [hv]
    exact computes_of_anchored hb held (Table.anchored_of_keys held hk)
  case right =>
    intro bound hl
    have hp : fresh (passes a (targets row.table) bound (start row)) =
        fresh (passes a (targets row.table) ((targets row.table).length + 1) (start row)) :=
      passes_eq_of_length_lt (by simpa [start] using hl) (by simp [start])
    rw [(steady_resolveWithin bound row cache hc).1, ← resolveWithin_length,
      (steady_resolveWithin _ row cache hc).1]
    exact congrArg (fun s : Sweep => (s.row, s.faults ++ leftFaults row s.pending)) hp

-- Assays of plates: a formula that refers forward, one that reads the plate, one that fails and one
-- that waits for it, and one that reads itself.
namespace Assays

def definition : CatalogDefinition where
  tables := [
    { name := "plate", columns := [{ id := "lot" }] },
    { name := "assay",
      columns := [
        { id := "title", codeFormula := some "%short.code" },
        { id := "short", codeFormula := some "%dye.code" },
        { id := "dye" },
        { id := "batch", codeFormula := some "%lot.code" },
        { id := "lost", codeFormula := some "%ghost.code" },
        { id := "late", codeFormula := some "%lost.code" },
        { id := "loop", codeFormula := some "%loop.code" }] }]
  relations := [{ parent := "plate", child := "assay" }]

def records : List (String × List Record) := [
  ("plate", [{ id := ⟨1⟩, cells := [("lot", .plain "L7")] }]),
  ("assay", [{ id := ⟨1⟩, cells := [("plateId", .plain "1"), ("dye", .plain "red")] }])]

def catalog : Catalog :=
  (Catalog.build definition).toOption.getD ⟨[]⟩

def archive : Archive where
  catalog := catalog
  store   := (Store.ofTables catalog records).toOption.getD {}

def assay : Row :=
  (archive.store.rows "assay").head (by decide)

-- The formula that reads the code of a column.
def reading (column : String) : Formula :=
  ⟨"%" ++ column ++ ".code", column, .code⟩

end Assays

-- The title comes from the dye over the short one, and the batch from the plate. No table has the
-- ghost, so the lost one fails, and with it the late one; the loop waits for itself.
open Assays in
theorem resolveRow_computes_assay :
    Catalog.build definition = .ok archive.catalog ∧ archive.Holds assay ∧
    (∀ r ∈ assay.table.directParents, assay.table.formula? ⟨r.foreignKey, .code⟩ = none) ∧
    ∃ result faults, ((resolveRow archive assay).run {}).1 = (result, faults) ∧
      Computes archive assay result faults ∧
      result.code "title" = some "red" ∧ result.code "batch" = some "L7" ∧
      faultsAt faults ⟨"lost", .code⟩ =
        [pin assay ⟨"lost", .code⟩ (.unknownColumn "ghost" "assay")] ∧
      faultsAt faults ⟨"late", .code⟩ = [pin assay ⟨"late", .code⟩ (.unresolved "lost" .code)] ∧
      faultsAt faults ⟨"loop", .code⟩ = [pin assay ⟨"loop", .code⟩ (.unresolved "loop" .code)] := by
  have hb : Catalog.build definition = .ok archive.catalog := by decide
  have held : archive.Holds assay := by decide
  have hk : ∀ r ∈ assay.table.directParents,
      assay.table.formula? ⟨r.foreignKey, .code⟩ = none := by decide
  have h := (resolveRow_computes hb held hk .empty).1
  have short : Outcome archive assay.uncomputed ⟨"short", .code⟩ (.ok "red") :=
    .plain (f := reading "dye") (by decide) (by decide) (by decide)
  have title : Outcome archive assay.uncomputed ⟨"title", .code⟩ (.ok "red") :=
    .value (f := reading "short") (by decide) short
  have batch : Outcome archive assay.uncomputed ⟨"batch", .code⟩ (.ok "L7") :=
    .above (f := reading "lot") (by decide) (by decide)
  have lost : Outcome archive assay.uncomputed ⟨"lost", .code⟩
      (.error (.unknownColumn "ghost" "assay")) :=
    .above (f := reading "ghost") (by decide) (by decide)
  have ends : ¬ assay.uncomputed.table.Looping ⟨"late", .code⟩ := by
    have hf : assay.uncomputed.table.formula? ⟨"late", .code⟩ = some (reading "lost") := by decide
    have hg : assay.uncomputed.table.formula? ⟨"lost", .code⟩ = some (reading "ghost") := by decide
    rw [(refers_reference hf).looping_iff]
    exact not_looping_of_plain hg (by decide)
  have late : Outcome archive assay.uncomputed ⟨"late", .code⟩ (.error (.unresolved "lost" .code)) :=
    .failed (f := reading "lost") (by decide) ends lost
  have again : assay.uncomputed.table.Refers ⟨"loop", .code⟩ ⟨"loop", .code⟩ :=
    refers_reference (f := reading "loop") (by decide)
  have loop : Outcome archive assay.uncomputed ⟨"loop", .code⟩ (.error (.unresolved "loop" .code)) :=
    .looping ⟨_, .refl, .single again⟩
  exact ⟨hb, held, hk, _, _, rfl, h, (h.value _ _ title).1, (h.value _ _ batch).1,
    (h.fault _ _ lost).2, (h.fault _ _ late).2, (h.fault _ _ loop).2⟩

end Formula

end ReportExchange
