import ReportExchange.Formula.Evaluation
import ReportExchange.Proofs.Row.Spares

namespace ReportExchange.Formula

variable {a : Archive} {c : ParentCache}

-- The step from `StateT` to pairs, which the library states with a bind in `Id`.
theorem run_bind {σ α β : Type} (m : StateM σ α) (f : α → StateM σ β) (s : σ) :
    (m >>= f).run s = (f (m.run s).1).run (m.run s).2 :=
  rfl

-- What an evaluation makes of a sweep: a value settles the cell, an error fails it, and without
-- either it waits on.
def Sweep.absorb (s : Sweep) (cell : CellHalf) : Except FormulaError (Option String) → Sweep
  | .ok (some value) => s.settle cell value
  | .ok none         => s
  | .error cause     => s.fail cell cause

theorem attempt_eq (s : Sweep) (t : Target) :
    ((attempt a s t).run c).1 =
      if t.cell ∈ s.pending then s.absorb t.cell ((evaluate a s t.formula).run.run c).1 else s := by
  rw [attempt]
  split
  case isFalse => rfl
  case isTrue  =>
    rw [run_bind]
    match ((evaluate a s t.formula).run.run c).1 with
    | .ok (some value) => rfl
    | .ok none         => rfl
    | .error cause     => rfl

-- What every step of a sweep keeps is kept by the whole of it.
section Induction

variable {P : Sweep → Prop} {ts : List Target}
variable (step : ∀ t ∈ ts, ∀ s, t.cell ∈ s.pending → P s → ∀ v, P (s.absorb t.cell v))

include step

theorem pass_induction {s : Sweep} (h : P s) : P ((pass a ts s).run c).1 := by
  rw [pass]
  induction ts generalizing s c
  case nil => exact h
  case cons t ts hi =>
    rw [List.foldlM_cons, run_bind]
    refine hi (fun t ht => step t (List.mem_cons_of_mem _ ht)) ?_
    rw [attempt_eq]
    split
    case isFalse   => exact h
    case isTrue hp => exact step t List.mem_cons_self s hp h _

theorem passes_induction {n : Nat} {s : Sweep} (h : P s) : P ((passes a ts n s).run c).1 := by
  induction n generalizing s c
  case zero => exact h
  case succ n hi =>
    rw [passes]
    split
    case isTrue  => exact h
    case isFalse =>
      have hp := pass_induction step (a := a) (c := c) h
      rw [run_bind]
      split
      case isTrue  => exact hp
      case isFalse => exact hi hp

end Induction

-- The columns of a table that a sweep may write into, or find at fault.
def computed (t : Table) : List String :=
  t.formulaColumns.map (·.id)

theorem mem_computed_of_columnTargets {t : Table} {column : Column}
    (h : column ∈ t.formulaColumns) :
    ∀ x ∈ columnTargets column,
      (∀ target, x = .ok target → target.cell.column ∈ computed t) ∧
      (∀ fault, x = .error fault → fault.1.column ∈ computed t) := by
  have hc : column.id ∈ computed t := List.mem_map_of_mem h
  intro x hx
  have ⟨half, _, hx⟩ := List.mem_filterMap.mp hx
  have ⟨text, _, hx⟩ := Option.map_eq_some_iff.mp hx
  subst hx
  split
  case h_1 => exact ⟨fun _ e => Except.ok.inj e ▸ hc, nofun⟩
  case h_2 => exact ⟨nofun, fun _ e => Except.error.inj e ▸ hc⟩

theorem target_mem_computed {t : Table} {target : Target} (h : target ∈ targets t) :
    target.cell.column ∈ computed t := by
  have ⟨x, hx, hk⟩ := List.mem_filterMap.mp h
  have ⟨column, hc, hx⟩ := List.mem_flatMap.mp hx
  cases x <;> cases hk
  exact (mem_computed_of_columnTargets hc _ hx).1 _ rfl

theorem malformed_mem_computed {row : Row} {fault : CellFault} (h : fault ∈ malformedFaults row) :
    fault.cell.column ∈ computed row.table := by
  have ⟨x, hx, hk⟩ := List.mem_filterMap.mp h
  have ⟨column, hc, hx⟩ := List.mem_flatMap.mp hx
  cases x <;> cases hk
  exact (mem_computed_of_columnTargets hc _ hx).2 _ rfl

theorem spares_cleared {columns : List String} {row : Row} {ts : List Target}
    (h : ∀ t ∈ ts, t.cell.column ∈ columns) : Row.Spares columns row (cleared row ts) := by
  rw [cleared]
  induction ts generalizing row
  case nil => exact .refl _ row
  case cons t ts hi =>
    have hc := row.spares_clearHalf t.cell.column t.cell.half
    have hs := hc.mono (List.cons_subset.mpr ⟨h t List.mem_cons_self, List.nil_subset columns⟩)
    exact hs.trans (hi fun t ht => h t (List.mem_cons_of_mem _ ht))

-- What is known of a sweep at any time, said of the row that it started from.
structure Sweep.Tidy (row : Row) (s : Sweep) : Prop where
  spares : Row.Spares (computed row.table) row s.row
  faults : ∀ f ∈ s.faults, f.cell.column ∈ computed row.table

theorem Sweep.Tidy.absorb {row : Row} {s : Sweep} {cell : CellHalf} (h : s.Tidy row)
    (hc : cell.column ∈ computed row.table) (v : Except FormulaError (Option String)) :
    (s.absorb cell v).Tidy row := by
  match v with
  | .ok none => exact h
  | .ok (some value) =>
    have hw := s.row.spares_setHalf cell.column cell.half value
    exact ⟨h.spares.trans (hw.mono (List.cons_subset.mpr ⟨hc, List.nil_subset _⟩)), h.faults⟩
  | .error cause =>
    refine ⟨h.spares, fun f hf => ?_⟩
    cases List.mem_append.mp hf
    case inl hf => exact h.faults f hf
    case inr hf => exact List.mem_singleton.mp hf ▸ hc

theorem resolveRow_tidy (row : Row) :
    Row.Spares (computed row.table) row ((resolveRow a row).run c).1.1 ∧
    ∀ f ∈ ((resolveRow a row).run c).1.2, f.cell.column ∈ computed row.table := by
  have hs := passes_induction (a := a) (c := c) (P := Sweep.Tidy row)
    (fun t (ht : t ∈ targets row.table) s _ h v => h.absorb (target_mem_computed ht) v)
    (n := (targets row.table).length + 1)
    (s := ⟨cleared row (targets row.table), (targets row.table).map (·.cell), [],
      malformedFaults row⟩)
    ⟨spares_cleared fun t ht => target_mem_computed ht, fun f hf => malformed_mem_computed hf⟩
  rw [resolveRow, run_bind]
  refine ⟨hs.spares, fun f hf => ?_⟩
  cases List.mem_append.mp hf
  case inl hf => exact hs.faults f hf
  case inr hf =>
    have ⟨cell, hl, e⟩ := List.mem_map.mp hf
    have ⟨t, ht, e'⟩ := List.mem_map.mp (List.mem_filter.mp hl).1
    exact e ▸ e' ▸ target_mem_computed ht

end ReportExchange.Formula
