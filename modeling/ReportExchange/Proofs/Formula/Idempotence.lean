import ReportExchange.Proofs.Formula.Resolution
import ReportExchange.Proofs.Row.Agreement

namespace ReportExchange

namespace Row

-- The second row is the first one, but for what the given halves say.
structure Rests (halves : List CellHalf) (r s : Row) : Prop where
  spares : Spares (halves.map (·.column)) r s
  agrees : r.AgreesOn (· ∉ halves) s

-- A cell of the column, if there is one, says something.
def Speaks (r : Row) (column : String) : Prop :=
  ∀ cell, r.get column = some cell → ¬ cell.isEmpty

variable {halves : List CellHalf} {r s t : Row} {x : CellHalf} {column : String}

namespace Rests

theorem refl (halves : List CellHalf) (r : Row) : Rests halves r r :=
  ⟨.refl _ r, .of_same (.refl r)⟩

theorem trans (h₁ : Rests halves r s) (h₂ : Rests halves s t) : Rests halves r t where
  spares := h₁.spares.trans h₂.spares
  agrees := {
    table     := h₂.agrees.table.trans h₁.agrees.table
    id        := h₂.agrees.id.trans h₁.agrees.id
    version   := h₂.agrees.version.trans h₁.agrees.version
    text x hx := (h₂.agrees.text x hx).trans (h₁.agrees.text x hx) }

theorem clearHalf (r : Row) (hx : x ∈ halves) : Rests halves r (r.clearHalf x.column x.half) where
  spares := (r.spares_clearHalf x.column x.half).mono (by simpa using ⟨x, hx, rfl⟩)
  agrees := {
    table   := rfl
    id      := rfl
    version := rfl
    text y hy := by
      have hne : y ≠ x := fun e => hy (e ▸ hx)
      rw [text_clearHalf, if_neg hne] }

theorem of_setHalf {v : String} (h : r.setHalf x.column x.half v = .ok s) (hx : x ∈ halves) :
    Rests halves r s where
  spares := (spares_of_put h).mono (by simpa using ⟨x, hx, rfl⟩)
  agrees := .of_setHalf h (not_not_intro hx)

-- A write that is refused leaves the row as it is.
theorem setHalf (r : Row) (hx : x ∈ halves) (v : String) :
    Rests halves r ((r.setHalf x.column x.half v).toOption.getD r) := by
  cases hs : r.setHalf x.column x.half v
  case error => exact refl halves r
  case ok s  => exact of_setHalf hs hx

end Rests

-- Clearing a half takes the whole cell away if the other half says nothing either.
theorem speaks_clearHalf (r : Row) (column : String) (h : Half) :
    (r.clearHalf column h).Speaks column := by
  intro cell hc
  rw [get_clearHalf, if_pos rfl] at hc
  obtain ⟨before, _, hw⟩ := Option.bind_eq_some_iff.mp hc
  rw [withoutHalf] at hw
  split at hw
  case isTrue     => cases hw
  case isFalse he => exact Option.some.inj hw ▸ he

theorem Speaks.clearHalf (hr : r.Speaks column) (other : String) (h : Half) :
    (r.clearHalf other h).Speaks column := by
  by_cases e : column = other
  case pos => exact e ▸ speaks_clearHalf r column h
  case neg =>
    intro cell hc
    rw [get_clearHalf, if_neg e] at hc
    exact hr cell hc

theorem Speaks.isSome_iff (h : r.Speaks column) :
    (r.get column).isSome ↔ ∃ half, r.text ⟨column, half⟩ ≠ "" := by
  constructor
  case mp =>
    intro hs
    obtain ⟨⟨code, label⟩, hc⟩ := Option.isSome_iff_exists.mp hs
    have he := h _ hc
    rw [get] at hc
    by_cases hcode : code = ""
    case neg => exact ⟨.code, by simpa [text, Row.half, hc, Cell.half] using hcode⟩
    case pos => exact ⟨.label, by simpa [text, Row.half, hc, Cell.half, Cell.isEmpty, hcode] using he⟩
  case mpr =>
    rintro ⟨half, ht⟩
    cases hc : r.get column
    case some => rfl
    case none => exact absurd (by simp [text, Row.half, show r.cells column = none from hc]) ht

-- Cells that say something are what they say.
theorem Speaks.get_eq (hr : r.Speaks column) (hs : s.Speaks column)
    (ht : ∀ half, r.text ⟨column, half⟩ = s.text ⟨column, half⟩) : r.get column = s.get column :=
  get_eq_of_text (by simp [hr.isSome_iff, hs.isSome_iff, ht]) ht

end Row

namespace Formula

variable {a : Archive} {row s : Row} {sw : Sweep} {ts : List Target} {halves : List CellHalf}
variable {cache : ParentCache} {column : String}

open Row

theorem rests_cleared (h : ∀ t ∈ ts, t.cell ∈ halves) :
    Rests halves row (cleared row ts) := by
  rw [cleared]
  induction ts generalizing row
  case nil => exact .refl halves row
  case cons t ts hi =>
    obtain ⟨ht, hts⟩ := List.forall_mem_cons.mp h
    exact .trans (.clearHalf row ht) (hi hts)

theorem speaks_cleared (h : row.Speaks column ∨ column ∈ ts.map (·.cell.column)) :
    (cleared row ts).Speaks column := by
  rw [cleared]
  induction ts generalizing row
  case nil => simpa using h
  case cons t ts hi =>
    refine hi ?_
    rw [List.map_cons, List.mem_cons] at h
    obtain hr | e | hm := h
    case inl     => exact .inl (hr.clearHalf _ _)
    case inr.inl => exact .inl (e ▸ speaks_clearHalf row _ _)
    case inr.inr => exact .inr hm

-- Rows that differ in cells to be cleared only are the same once these are cleared.
theorem cleared_eq_of_rests (h : Rests (ts.map (·.cell)) row s) : cleared s ts = cleared row ts := by
  have hts : ∀ t ∈ ts, t.cell ∈ ts.map (·.cell) := fun t ht => List.mem_map_of_mem ht
  have hr : Rests _ row (cleared row ts) := rests_cleared hts
  have hs : Rests _ s (cleared s ts) := rests_cleared hts
  have hc := h.trans hs
  refine Row.ext (hc.spares.table.trans hr.spares.table.symm)
    (hc.spares.id.trans hr.spares.id.symm) (hc.spares.version.trans hr.spares.version.symm)
    (funext fun column => ?_)
  by_cases hm : column ∈ (ts.map (·.cell)).map (·.column)
  case neg => exact (hc.spares.cells column hm).trans (hr.spares.cells column hm).symm
  case pos =>
    rw [List.map_map] at hm
    refine (speaks_cleared (.inr hm)).get_eq (speaks_cleared (.inr hm)) fun half => ?_
    rw [text_cleared, text_cleared]
    split
    case isTrue  => rfl
    case isFalse hn => exact h.agrees.text _ hn

theorem rests_absorb (h : Rests halves row sw.row) {x : CellHalf} (hx : x ∈ halves)
    (v : Except FormulaError (Option String)) : Rests halves row (sw.absorb x v).row := by
  match v with
  | .ok none         => exact h
  | .error cause     => exact h
  | .ok (some value) => exact h.trans (.setHalf sw.row hx value)

theorem rests_passes (hts : ∀ t ∈ ts, t.cell ∈ halves) {n : Nat} (h : Rests halves row sw.row) :
    Rests halves row ((passes a ts n sw).run cache).1.row :=
  passes_induction (P := fun sw => Rests halves row sw.row)
    (fun t ht _ _ h v => rests_absorb h (hts t ht) v) h

-- A resolution writes into the cells that it has cleared, and into no others.
theorem rests_resolveRow (row : Row) :
    Rests ((targets row.table).map (·.cell)) row ((resolveRow a row).run cache).1.1 := by
  have hts : ∀ t ∈ targets row.table, t.cell ∈ (targets row.table).map (·.cell) :=
    fun _ ht => List.mem_map_of_mem ht
  have hstart : Rests _ row (Sweep.start row).row := rests_cleared hts
  rw [resolveRow, run_bind]
  exact rests_passes hts hstart

-- What a resolution comes to depends on the row without its formula cells only.
theorem fresh_resolveRow_congr (ht : s.table = row.table) (hi : s.id = row.id)
    (hu : s.uncomputed = row.uncomputed) : fresh (resolveRow a s) = fresh (resolveRow a row) := by
  have hp : pin s = pin row := by
    funext cell cause
    simp [pin, ht, hi]
  have hstart : Sweep.start s = Sweep.start row := by
    simp only [Sweep.start, malformedFaults, hu, ht, hp]
  simp only [fresh_resolveRow, leftFaults, hstart, ht, hp]

-- A resolved row is resolved for good: running the resolution on it again, with the cache that the
-- first run has left behind, gives the same row and the same faults.
theorem resolveRow_idempotent (hc : cache.Faithful a) (row : Row) :
    let first := (resolveRow a row).run cache
    ((resolveRow a first.1.1).run first.2).1 = first.1 := by
  intro first
  have hr : Rests _ row first.1.1 := rests_resolveRow row
  have hu : first.1.1.uncomputed = row.uncomputed := by
    rw [uncomputed, hr.spares.table, cleared_eq_of_rests hr, uncomputed]
  obtain ⟨hv, hf⟩ := steady_resolveRow row cache hc
  calc ((resolveRow a first.1.1).run first.2).1
    _ = fresh (resolveRow a first.1.1) := (steady_resolveRow first.1.1 first.2 hf).1
    _ = fresh (resolveRow a row)       := fresh_resolveRow_congr hr.spares.table hr.spares.id hu
    _ = first.1                        := hv.symm

open Assays in
-- With a slot of the cache filled, and with a formula cell that holds something else beforehand.
theorem resolveRow_idempotent_assay :
    let cache := (({} : ParentCache).parent archive "plate" ⟨1⟩).2
    let row := (assay.putCode "lost" "stale").toOption.getD assay
    let first := (resolveRow archive row).run cache
    cache.slots.length = 1 ∧ first.1.2.length = 3 ∧
    ((resolveRow archive first.1.1).run first.2).1 = first.1 := by
  refine ⟨by decide, by decide, resolveRow_idempotent ?_ _⟩
  exact (ParentCache.parent_faithful "plate" ⟨1⟩ .empty).2

end Formula

end ReportExchange
