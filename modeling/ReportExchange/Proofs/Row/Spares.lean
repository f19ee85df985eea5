import ReportExchange.Ancestor.Inject

namespace ReportExchange.Row

-- The second row is the first one, but for cells of the given columns.
structure Spares (columns : List String) (r s : Row) : Prop where
  table   : s.table = r.table
  id      : s.id = r.id
  version : s.version = r.version
  cells   : ∀ column, column ∉ columns → s.cells column = r.cells column

namespace Spares

variable {columns : List String} {r s t : Row}

theorem refl (columns : List String) (r : Row) : Spares columns r r where
  table     := rfl
  id        := rfl
  version   := rfl
  cells _ _ := rfl

theorem trans (h₁ : Spares columns r s) (h₂ : Spares columns s t) : Spares columns r t where
  table        := h₂.table.trans h₁.table
  id           := h₂.id.trans h₁.id
  version      := h₂.version.trans h₁.version
  cells k hk   := (h₂.cells k hk).trans (h₁.cells k hk)

theorem mono {more : List String} (h : Spares columns r s) (hs : columns ⊆ more) :
    Spares more r s where
  table      := h.table
  id         := h.id
  version    := h.version
  cells k hk := h.cells k fun hc => hk (hs hc)

theorem code {column : String} (h : Spares columns r s) (hc : column ∉ columns) :
    s.code column = r.code column := by
  rw [Row.code, Row.code, h.cells column hc]

end Spares

theorem spares_of_put {r s : Row} {column : String} {cell : Cell} (h : r.put column cell = .ok s) :
    Spares [column] r s := by
  have ⟨ht, hi, hv⟩ := frame_of_put h
  refine ⟨ht, hi, hv, fun k hk => ?_⟩
  have hg := get_of_put h k
  rwa [if_neg (by simpa using hk)] at hg

theorem spares_clearHalf (r : Row) (column : String) (h : Half) :
    Spares [column] r (r.clearHalf column h) := by
  refine ⟨rfl, rfl, rfl, fun k hk => ?_⟩
  exact (get_clearHalf r column k h).trans (if_neg (by simpa using hk))

-- A write that is refused leaves the row as it is.
theorem spares_setHalf (r : Row) (column : String) (h : Half) (value : String) :
    Spares [column] r ((r.setHalf column h value).toOption.getD r) := by
  cases hs : r.setHalf column h value
  case error => exact .refl _ r
  case ok s  => exact spares_of_put hs

end ReportExchange.Row
