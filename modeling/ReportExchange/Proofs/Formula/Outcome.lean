import ReportExchange.Proofs.Catalog.Ancestry
import ReportExchange.Proofs.Formula.Passes
import ReportExchange.Proofs.Formula.Reference
import ReportExchange.Proofs.Report.Archive

namespace ReportExchange

-- The row before its formulas have been computed: their cells are empty.
def Row.uncomputed (r : Row) : Row :=
  Formula.cleared r (Formula.targets r.table)

namespace Table

-- No formula climbs to a parent through a key that is itself computed.
def Anchored (c : Catalog) (t : Table) : Prop :=
  ∀ x f, t.formula? x = some f → ¬ t.declares f.column → ∀ r rest,
    c.pathToAncestor t.name f.column = some (r :: rest) →
    t.formula? ⟨r.foreignKey, .code⟩ = none

theorem anchored_of_keys {c : Catalog} {t : Table} (ht : c.table? t.name = some t)
    (h : ∀ r ∈ t.directParents, t.formula? ⟨r.foreignKey, .code⟩ = none) : t.Anchored c := by
  intro x f _ _ r rest hp
  have ⟨_, _, e, hr⟩ := Catalog.exists_first_of_pathToAncestor ht hp
  cases e
  exact h r hr

end Table

-- Where a row leads to depends on the first key on the way up only.
theorem Formula.value_ancestor_congr {a : Archive} {r s : Row} {column : String} (held : a.Holds r)
    (ht : s.table = r.table)
    (hk : ∀ up rest, a.catalog.pathToAncestor r.table.name column = some (up :: rest) →
      s.text ⟨up.foreignKey, .code⟩ = r.text ⟨up.foreignKey, .code⟩) :
    (ancestor a s column).value = (ancestor a r column).value := by
  simp only [value_ancestor, ht]
  cases hp : a.catalog.pathToAncestor r.table.name column
  case none      => rfl
  case some path =>
    obtain ⟨up, rest, rfl, _⟩ := Catalog.exists_first_of_pathToAncestor held hp
    have hi : s.parentId up.parent = r.parentId up.parent := Row.parentId_congr (hk up rest hp)
    simp only [value_follow_cons, hi, ht]

theorem Archive.above_congr {a : Archive} {r s : Row} {f : Formula} (held : a.Holds r)
    (ht : s.table = r.table)
    (hk : ∀ up rest, a.catalog.pathToAncestor r.table.name f.column = some (up :: rest) →
      s.text ⟨up.foreignKey, .code⟩ = r.text ⟨up.foreignKey, .code⟩) :
    a.above s f = a.above r f := by
  simp only [above, Formula.value_ancestor_congr held ht hk]

namespace Formula

-- The outcome of a formula cell. `row` is the row before any formula has been computed.
inductive Outcome (a : Archive) (row : Row) : CellHalf → Except FormulaError String → Prop
  | above {x : CellHalf} {f : Formula} :
    row.table.formula? x = some f → ¬ row.table.declares f.column →
    Outcome a row x (a.above row f)
  | plain {x : CellHalf} {f : Formula} :
    row.table.formula? x = some f → row.table.declares f.column →
    row.table.formula? f.reference = none → Outcome a row x (.ok (row.text f.reference))
  | value {x : CellHalf} {f : Formula} {v : String} :
    row.table.formula? x = some f → Outcome a row f.reference (.ok v) → Outcome a row x (.ok v)
  | failed {x : CellHalf} {f : Formula} {e : FormulaError} :
    row.table.formula? x = some f → ¬ row.table.Looping x →
    Outcome a row f.reference (.error e) →
    Outcome a row x (.error (.unresolved f.column f.half))
  | looping {x : CellHalf} :
    row.table.Looping x → Outcome a row x (.error (.unresolved x.column x.half))

variable {a : Archive} {row : Row} {x : CellHalf} {f : Formula}

theorem refers_reference {t : Table} (h : t.formula? x = some f) : t.Refers x f.reference :=
  ⟨f, h, rfl⟩

-- A formula that leaves the row, or ends at a plain cell, is on no cycle.
theorem not_looping_of_plain {t : Table} (h : t.formula? x = some f)
    (hp : t.formula? f.reference = none) : ¬ t.Looping x := by
  rw [(refers_reference h).looping_iff]
  exact Table.not_looping_of_eq_none hp

theorem formula?_eq_none_of_not_declares {t : Table} (h : ¬ t.declares x.column) :
    t.formula? x = none := by
  by_contra hn
  have ⟨f, hf⟩ := Option.ne_none_iff_exists'.mp hn
  exact h (Table.declares_of_formula? hf)

namespace Outcome

variable {v w : Except FormulaError String}

theorem isSome (h : Outcome a row x v) : (row.table.formula? x).isSome := by
  match h with
  | .above hf _ | .plain hf _ _ | .value hf _ | .failed hf _ _ => simp [hf]
  | .looping hl =>
    have ⟨y, ⟨f, hf, _⟩⟩ := hl.exists_refers
    simp [hf]

-- A cell that runs into a cycle has no other outcome than that.
theorem eq_of_looping (h : Outcome a row x v) (hl : row.table.Looping x) :
    v = .error (.unresolved x.column x.half) := by
  induction h with
  | above hf hd =>
    exact absurd hl (not_looping_of_plain hf (formula?_eq_none_of_not_declares hd))
  | plain hf _ hp  => exact absurd hl (not_looping_of_plain hf hp)
  | value hf _ hi  => cases hi ((refers_reference hf).looping_iff.mp hl)
  | failed _ hn    => exact absurd hl hn
  | looping        => rfl

-- Every other outcome is decided by what the formula of the cell refers to.
theorem inv (h : Outcome a row x v) (hf : row.table.formula? x = some f)
    (hl : ¬ row.table.Looping x) :
    (¬ row.table.declares f.column → v = a.above row f) ∧
    (row.table.declares f.column → row.table.formula? f.reference = none →
      v = .ok (row.text f.reference)) ∧
    ((row.table.formula? f.reference).isSome → ∃ u, Outcome a row f.reference u ∧
      v = u.mapError fun _ => .unresolved f.column f.half) := by
  match h with
  | .looping hx => exact absurd hx hl
  | .above hg hd =>
    cases Option.some.inj (hf.symm.trans hg)
    have hp : row.table.formula? f.reference = none := formula?_eq_none_of_not_declares hd
    exact ⟨fun _ => rfl, fun h => absurd h hd, by simp [hp]⟩
  | .plain hg hd hp =>
    cases Option.some.inj (hf.symm.trans hg)
    exact ⟨fun h => absurd hd h, fun _ _ => rfl, by simp [hp]⟩
  | .value hg ho | .failed hg _ ho =>
    cases Option.some.inj (hf.symm.trans hg)
    have hs := ho.isSome
    refine ⟨fun hd => ?_, fun _ hp => ?_, fun _ => ⟨_, ho, rfl⟩⟩
    case refine_1 =>
      have hp : row.table.formula? f.reference = none := formula?_eq_none_of_not_declares hd
      simp [hp] at hs
    case refine_2 => simp [hp] at hs

-- A value comes from above, from a plain cell, or from the formula of the next cell.
theorem inv_ok {w : String} (h : Outcome a row x (.ok w)) (hf : row.table.formula? x = some f) :
    ¬ row.table.declares f.column ∧ a.above row f = .ok w ∨
    row.table.declares f.column ∧ row.table.formula? f.reference = none ∧
      w = row.text f.reference ∨
    row.table.declares f.column ∧ Outcome a row f.reference (.ok w) := by
  have hl : ¬ row.table.Looping x := fun hl => nomatch h.eq_of_looping hl
  obtain ⟨habove, hplain, hnext⟩ := h.inv hf hl
  by_cases hd : row.table.declares f.column
  case neg => exact .inl ⟨hd, (habove hd).symm⟩
  case pos =>
    cases hr : row.table.formula? f.reference
    case none => exact .inr (.inl ⟨hd, rfl, Except.ok.inj (hplain hd hr)⟩)
    case some =>
      obtain ⟨u, hu, e⟩ := hnext (by simp [hr])
      cases u <;> cases e
      exact .inr (.inr ⟨hd, hu⟩)

theorem unique (h : Outcome a row x v) (h' : Outcome a row x w) : v = w := by
  induction h generalizing w with
  | looping hl => exact (h'.eq_of_looping hl).symm
  | above hf hd =>
    have hl := not_looping_of_plain hf (formula?_eq_none_of_not_declares hd)
    exact ((h'.inv hf hl).1 hd).symm
  | plain hf hd hp => exact ((h'.inv hf (not_looping_of_plain hf hp)).2.1 hd hp).symm
  | failed hf hl ho hi =>
    have ⟨u, hu, e⟩ := (h'.inv hf hl).2.2 ho.isSome
    cases hi hu
    exact e.symm
  | @value x _ _ hf ho hi =>
    have hl : ¬ row.table.Looping x := fun hl =>
      nomatch ho.eq_of_looping ((refers_reference hf).looping_iff.mp hl)
    have ⟨u, hu, e⟩ := (h'.inv hf hl).2.2 ho.isSome
    cases hi hu
    exact e.symm

end Outcome

end Formula

end ReportExchange
