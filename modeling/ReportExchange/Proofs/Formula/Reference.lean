import Mathlib.Data.Fintype.Card
import Mathlib.Data.Set.Finite.Basic
import Mathlib.Logic.Relation
import ReportExchange.Proofs.Formula.Cells

namespace ReportExchange.Table

-- The formula of one cell half reads the other.
def Refers (t : Table) (x y : CellHalf) : Prop :=
  ∃ f, t.formula? x = some f ∧ f.reference = y

-- The chain of references from a cell half runs into a cycle.
def Looping (t : Table) (x : CellHalf) : Prop :=
  ∃ y, Relation.ReflTransGen t.Refers x y ∧ Relation.TransGen t.Refers y y

variable {t : Table} {x y z : CellHalf}

theorem Refers.unique (h : t.Refers x y) (h' : t.Refers x z) : y = z := by
  obtain ⟨f, hf, rfl⟩ := h
  obtain ⟨g, hg, rfl⟩ := h'
  cases Option.some.inj (hf.symm.trans hg)
  rfl

theorem Refers.looping_iff (h : t.Refers x y) : t.Looping x ↔ t.Looping y := by
  constructor
  case mpr =>
    rintro ⟨z, hy, hz⟩
    exact ⟨z, hy.head h, hz⟩
  case mp =>
    rintro ⟨z, hx, hz⟩
    cases hx.cases_head
    case inr hm =>
      obtain ⟨y', hy', hz'⟩ := hm
      exact ⟨z, h.unique hy' ▸ hz', hz⟩
    case inl e =>
      -- The cell is on the cycle itself, so the next one is as well.
      subst e
      obtain ⟨y', hy', hx'⟩ := Relation.TransGen.head'_iff.mp hz
      exact ⟨x, h.unique hy' ▸ hx', hz⟩

theorem Looping.exists_refers (h : t.Looping x) : ∃ y, t.Refers x y := by
  obtain ⟨z, hx, hz⟩ := h
  cases hx.cases_head
  case inr hm =>
    obtain ⟨y, hr, _⟩ := hm
    exact ⟨y, hr⟩
  case inl e =>
    subst e
    obtain ⟨y, hr, _⟩ := Relation.TransGen.head'_iff.mp hz
    exact ⟨y, hr⟩

theorem not_looping_of_eq_none (h : t.formula? x = none) : ¬ t.Looping x := by
  intro hl
  obtain ⟨_, f, hf, _⟩ := hl.exists_refers
  cases h.symm.trans hf

-- Among finitely many cells that all refer to each other, no chain can end.
theorem looping_of_closed {cells : List CellHalf}
    (h : ∀ x ∈ cells, ∃ y ∈ cells, t.Refers x y) (hx : x ∈ cells) : t.Looping x := by
  by_contra hl
  let Below (y z : { y // y ∈ cells ∧ ¬ t.Looping y }) : Prop := Relation.TransGen t.Refers z.1 y.1
  have : Finite { y // y ∈ cells ∧ ¬ t.Looping y } :=
    (cells.finite_toSet.subset fun y hy => hy.1).to_subtype
  have : IsTrans _ Below := ⟨fun _ _ _ h₁ h₂ => h₂.trans h₁⟩
  have : Std.Irrefl Below := ⟨fun y hy => y.2.2 ⟨y.1, .refl, hy⟩⟩
  have wf : WellFounded Below := Finite.wellFounded_of_trans_of_irrefl _
  refine wf.induction (C := fun _ => False) ⟨x, hx, hl⟩ fun y hi => ?_
  obtain ⟨z, hz, hr⟩ := h y.1 y.2.1
  exact hi ⟨z, hz, fun hl => y.2.2 (hr.looping_iff.mpr hl)⟩ (.single hr)

end ReportExchange.Table
