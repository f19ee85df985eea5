import ReportExchange.Proofs.Formula.Lockstep
import ReportExchange.Proofs.Formula.Resolution
import ReportExchange.Proofs.Row.Agreement

namespace ReportExchange

namespace Catalog

variable {c : Catalog} {t : Table}

-- The cells that formulas of tables further down read in a stored row: one in the nearest ancestor
-- that has the column, and those that its own formula leads on to.
inductive Consulted (c : Catalog) : Table → CellHalf → Prop
  | above {t up : Table} {x : CellHalf} {f : Formula} {path : List Relation} :
    t ∈ c.tables → t.formula? x = some f → ¬ t.declares f.column →
    c.pathToAncestor t.name f.column = some path → c.Climbs t path up →
    Consulted c up f.reference
  | within {t : Table} {x : CellHalf} {f : Formula} :
    Consulted c t x → t.formula? x = some f → Consulted c t f.reference

-- A column for the identity of a direct parent, or of one that a direct parent hands down.
def KeyOf (c : Catalog) (t : Table) (column : String) : Prop :=
  ∃ r ∈ t.directParents, column = r.foreignKey ∨
    ∃ parent ∈ c.tables, parent.name = r.parent ∧ ∃ up ∈ parent.parents, column = up.foreignKey

instance (c : Catalog) (t : Table) (column : String) : Decidable (c.KeyOf t column) :=
  inferInstanceAs (Decidable (∃ _ ∈ _, _))

-- What is read from a stored row of the table.
inductive Stored (c : Catalog) (t : Table) : CellHalf → Prop
  | plain {x : CellHalf} : t.formula? x = none → Stored c t x
  | key {column : String} : c.KeyOf t column → Stored c t ⟨column, .code⟩
  | consulted {x : CellHalf} : c.Consulted t x → Stored c t x

theorem stored_foreignKey {r : Relation} (h : r ∈ t.directParents) :
    c.Stored t ⟨r.foreignKey, .code⟩ :=
  .key ⟨r, h, .inl rfl⟩

-- A formula cell that is no key, and that no formula refers to, is never read from storage.
theorem not_stored {x : CellHalf} (hc : c.Sound) (ht : t ∈ c.tables)
    (hf : (t.formula? x).isSome) (hk : ¬ c.KeyOf t x.column)
    (hr : ∀ u ∈ c.tables, ∀ target ∈ Formula.targets u, target.formula.reference ≠ x) :
    ¬ c.Stored t x := by
  have referred {u : Table} (hu : u ∈ c.tables) {y : CellHalf} {f : Formula}
      (hy : u.formula? y = some f) : f.reference ≠ x :=
    hr u hu ⟨y, f⟩ ((Formula.mem_targets (hc.columns u hu)).mpr hy)
  intro hs
  cases hs with
  | plain hp => simp [hp] at hf
  | key hc   => exact hk hc
  | consulted h =>
    generalize e : x = y at h
    cases h with
    | above hu hy => exact referred hu hy e.symm
    | within _ hy => exact referred ht hy e.symm

-- Two rows of which everything that is read from storage is the same.
def Agree (c : Catalog) (r r' : Row) : Prop :=
  r.AgreesOn (c.Stored r.table) r'

end Catalog

-- The same archive, but for formula cells that are not read from storage.
structure Archive.Restored (a a' : Archive) : Prop where
  catalog : a'.catalog = a.catalog
  store   : a.store.Matches a.catalog.Agree a'.store

namespace Formula

variable {a a' : Archive} {r r' row row' : Row} {x : CellHalf} {f : Formula}

-- The formula is looked up in the row, or climbs from it as one of its own.
def Asked (c : Catalog) (t : Table) (f : Formula) : Prop :=
  if t.declares f.column then c.Consulted t f.reference else ∃ x, t.formula? x = some f

theorem parent_agrees (h : a.Restored a') (table : String) (id : RowId) :
    Matched a.catalog.Agree (a.parent table id) (a'.parent table id) :=
  Archive.parent_matched (fun name => by rw [h.catalog]) h.store (fun _ _ hr => hr.id) table id

-- A formula that climbs comes to rows that agree, and what it asks there is read from storage.
theorem ancestor_agrees (hs : a.Sound) (h : a.Restored a') (held : a.Holds r)
    (hr : a.catalog.Agree r r') (hf : r.table.formula? x = some f)
    (hd : ¬ r.table.declares f.column) :
    Matched (fun u u' => a.Holds u ∧ a.catalog.Agree u u' ∧ u.table.declares f.column ∧
      a.catalog.Consulted u.table f.reference)
      (ancestor a r f.column).value (ancestor a' r' f.column).value := by
  simp only [value_ancestor, h.catalog, hr.table]
  cases hp : a.catalog.pathToAncestor r.table.name f.column
  case none      => exact .error _
  case some path =>
    obtain ⟨up, hc, _, hu⟩ := Catalog.climbs_of_pathToAncestor held hp
    have step (up' path r r')
        (hstep : a.Holds r ∧ a.catalog.Agree r r' ∧ a.catalog.Climbs r.table (up' :: path) up) :
        r'.table.name = r.table.name ∧ r'.parentId up'.parent = r.parentId up'.parent ∧
        ∀ id, Matched (fun u u' => a.Holds u ∧ a.catalog.Agree u u' ∧
          a.catalog.Climbs u.table path up)
          (a.parent up'.parent id) (a'.parent up'.parent id) := by
      obtain ⟨_, hr, hc⟩ := hstep
      cases hc with
      | cons hm ht hc =>
        refine ⟨by rw [hr.table], hr.parentId_eq (Catalog.stored_foreignKey hm), fun id => ?_⟩
        refine ((parent_agrees h up'.parent id).and_left
          fun u hu => hs.table_of_parent ht hu).mono ?_
        rintro u u' ⟨⟨held, e⟩, hu⟩
        exact ⟨held, hu, e ▸ hc⟩
    refine (follow_matched (S := fun path r r' => a.Holds r ∧ a.catalog.Agree r r' ∧
      a.catalog.Climbs r.table path up) step ⟨held, hr, hc⟩).mono ?_
    rintro u u' ⟨held', hu', hc'⟩
    cases hc'
    exact ⟨held', hu', hu, .above held.mem hf hd hp hc⟩

-- A formula that climbs is looked up where it comes to.
theorem ancestor_asked (hs : a.Sound) (h : a.Restored a') (held : a.Holds r)
    (hr : a.catalog.Agree r r') (hf : r.table.formula? x = some f)
    (hd : ¬ r.table.declares f.column) :
    Matched (fun u u' => a.Holds u ∧ a.catalog.Agree u u' ∧ Asked a.catalog u.table f)
      (ancestor a r f.column).value (ancestor a' r' f.column).value := by
  refine (ancestor_agrees hs h held hr hf hd).mono ?_
  rintro u u' ⟨held', hu, hd', hc⟩
  refine ⟨held', hu, ?_⟩
  rwa [Asked, if_pos hd']

theorem inStep_of_restored (hs : a.Sound) (h : a.Restored a') :
    InStep a a' fun f r r' => a.Holds r ∧ a.catalog.Agree r r' ∧ Asked a.catalog r.table f where
  resolve := by
    rintro f r r' ⟨_, hr, ha⟩
    by_cases hd : r.table.declares f.column
    case neg =>
      rw [resolve_eq_none_iff.mpr hd, resolve_eq_none_iff]
      rwa [hr.table]
    case pos =>
      rw [Asked, if_pos hd] at ha
      have ht : (r'.half f.column f.half).getD "" = (r.half f.column f.half).getD "" :=
        hr.text _ (.consulted ha)
      simp only [resolve, hr.table, ht]
  next := by
    rintro f g r r' text ⟨held, hr, ha⟩ hv hc
    have hg := formula?_of_deferred hv hc
    refine ⟨held, hr, ?_⟩
    have hd : r.table.declares f.column := Table.declares_of_formula? hg
    rw [Asked, if_pos hd] at ha
    rw [Asked]
    split
    case isTrue  => exact .within ha hg
    case isFalse => exact ⟨_, hg⟩
  ancestor := by
    rintro f r r' ⟨held, hr, ha⟩ hv
    have hd := resolve_eq_none_iff.mp hv
    rw [Asked, if_neg hd] at ha
    obtain ⟨x, hf⟩ := ha
    exact ancestor_asked hs h held hr hf hd

theorem above_restored (hs : a.Sound) (h : a.Restored a') (held : a.Holds r) (hr : r.Same r')
    (hf : r.table.formula? x = some f) (hd : ¬ r.table.declares f.column) :
    a.above r f = a'.above r' f :=
  (inStep_of_restored hs h).above_eq (ancestor_asked hs h held (.of_same hr) hf hd)

-- Two sweeps that differ in nothing that can be seen.
structure Sweep.Same (s s' : Sweep) : Prop where
  row     : s.row.Same s'.row
  pending : s'.pending = s.pending
  failed  : s'.failed = s.failed
  faults  : s'.faults = s.faults

namespace Sweep.Same

variable {s s' : Sweep}

theorem evaluate_eq (hs : a.Sound) (h : a.Restored a') (held : a.Holds s.row) (he : s.Same s')
    (hf : s.row.table.formula? x = some f) : (evaluate a s f).value = (evaluate a' s' f).value := by
  simp only [value_evaluate, he.row.table, he.pending, he.failed, he.row.text _ trivial]
  by_cases hd : s.row.table.declares f.column
  case pos => simp only [hd, if_true]
  case neg => simp only [hd, above_restored hs h held he.row hf hd]

theorem absorb (he : s.Same s') (x : CellHalf) (v : Except FormulaError (Option String)) :
    (s.absorb x v).Same (s'.absorb x v) := by
  match v with
  | .ok none     => exact he
  | .ok (some v) =>
    exact ⟨he.row.setHalf x v, by simp [Sweep.absorb, Sweep.settle, he.pending], he.failed, he.faults⟩
  | .error e     =>
    refine ⟨he.row, ?_, ?_, ?_⟩
    case refine_1 => simp [Sweep.absorb, Sweep.fail, he.pending]
    case refine_2 => simp [Sweep.absorb, Sweep.fail, he.failed]
    case refine_3 => simp [Sweep.absorb, Sweep.fail, he.faults, pin, he.row.table, he.row.id]

end Sweep.Same

-- Every sweep stays in the table of its row.
theorem Sweep.table_absorb (s : Sweep) (x : CellHalf) (v : Except FormulaError (Option String)) :
    (s.absorb x v).row.table = s.row.table := by
  match v with
  | .ok none     => rfl
  | .ok (some v) => exact (s.row.spares_setHalf x.column x.half v).table
  | .error _     => rfl

section Passes

variable {t : Table} {ts : List Target} {s s' : Sweep}
variable (hs : a.Sound) (h : a.Restored a') (ht : a.catalog.table? t.name = some t)
variable (hts : ∀ target ∈ ts, t.formula? target.cell = some target.formula)

include hs h ht hts

theorem round_same (he : s.Same s') (e : s.row.table = t) :
    (s.round a ts).Same (s'.round a' ts) ∧ (s.round a ts).row.table = t := by
  induction ts generalizing s s'
  case nil => exact ⟨he, e⟩
  case cons target ts hi =>
    have ⟨hf, hts⟩ := List.forall_mem_cons.mp hts
    have held : a.Holds s.row := by
      rw [Archive.Holds, e]
      exact ht
    have hv := he.evaluate_eq hs h held (e ▸ hf)
    have step : (s.tried a target).Same (s'.tried a' target) ∧ (s.tried a target).row.table = t := by
      rw [Sweep.tried, Sweep.tried, he.pending, ← hv]
      split
      case isFalse => exact ⟨he, e⟩
      case isTrue  => exact ⟨he.absorb _ _, (s.table_absorb _ _).trans e⟩
    exact hi hts step.1 step.2

theorem passes_same (n : Nat) (he : s.Same s') (e : s.row.table = t) :
    (fresh (passes a ts n s)).Same (fresh (passes a' ts n s')) := by
  induction n generalizing s s'
  case zero => exact he
  case succ n hi =>
    have ⟨hr, er⟩ := round_same hs h ht hts he e
    rw [fresh_passes_succ, fresh_passes_succ, he.pending, hr.pending]
    split
    case isTrue  => exact he
    case isFalse =>
      split
      case isTrue  => exact hr
      case isFalse => exact hi hr er

end Passes

theorem uncomputed_same {c : Catalog} (hn : (r.table.columns.map (·.id)).Nodup)
    (hr : c.Agree r r') : r.uncomputed.Same r'.uncomputed := by
  have hu := r.spares_uncomputed
  have hu' := r'.spares_uncomputed
  refine ⟨hu'.table.trans (hr.table.trans hu.table.symm), hu'.id.trans (hr.id.trans hu.id.symm),
    hu'.version.trans (hr.version.trans hu.version.symm), fun x _ => ?_⟩
  rw [Row.text_uncomputed hn, Row.text_uncomputed (hr.table ▸ hn), hr.table]
  cases hf : r.table.formula? x
  case none => exact hr.text x (.plain hf)
  case some => rfl

theorem start_same {c : Catalog} (hn : (r.table.columns.map (·.id)).Nodup) (hr : c.Agree r r') :
    (Sweep.start r).Same (Sweep.start r') where
  row     := uncomputed_same hn hr
  pending := by simp only [Sweep.start, hr.table]
  failed  := rfl
  faults  := by simp only [Sweep.start, malformedFaults, pin, hr.table, hr.id]

-- What the formula cells of a row have said before is gone once it has been computed.
theorem resolved_same (hs : a.Sound) (h : a.Restored a') (held : a.Holds r)
    (hr : a.catalog.Agree r r') :
    (fresh (resolveRow a r)).1.Same (fresh (resolveRow a' r')).1 ∧
    (fresh (resolveRow a' r')).2 = (fresh (resolveRow a r)).2 := by
  have hn := hs.catalog.columns _ held.mem
  have he := passes_same hs h held (fun _ => (mem_targets hn).mp)
    ((targets r.table).length + 1) (start_same hn hr) r.spares_uncomputed.table
  rw [fresh_resolveRow, fresh_resolveRow, hr.table]
  refine ⟨he.row, ?_⟩
  simp only [he.faults, he.pending, leftFaults, pin, hr.table, hr.id]

end Formula

end ReportExchange
