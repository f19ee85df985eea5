import ReportExchange.Proofs.Ancestor.Inject
import ReportExchange.Proofs.Formula.Cells

namespace ReportExchange.Row

-- The rows differ in the text of cells only, and there only in halves that are not read.
structure AgreesOn (read : CellHalf → Prop) (r r' : Row) : Prop where
  table   : r'.table = r.table
  id      : r'.id = r.id
  version : r'.version = r.version
  text    : ∀ x, read x → r'.text x = r.text x

-- Rows that say the same everywhere.
def Same (r r' : Row) : Prop :=
  r.AgreesOn (fun _ => True) r'

theorem Same.refl (r : Row) : r.Same r where
  table   := rfl
  id      := rfl
  version := rfl
  text    := fun _ _ => rfl

variable {read : CellHalf → Prop} {r r' s s' : Row} {column : String} {cell : Cell}

theorem text_of_put (h : r.put column cell = .ok s) (x : CellHalf) :
    s.text x = if x.column = column then cell.half x.half else r.text x := by
  have hg := get_of_put h x.column
  simp only [get] at hg
  simp only [text, half, hg]
  split <;> rfl

namespace AgreesOn

theorem of_same (h : r.Same r') : r.AgreesOn read r' where
  table    := h.table
  id       := h.id
  version  := h.version
  text x _ := h.text x trivial

theorem parentId_eq {parent : String} (h : r.AgreesOn read r')
    (hk : read ⟨foreignKey parent, .code⟩) : r'.parentId parent = r.parentId parent :=
  parentId_congr (h.text _ hk)

-- Writing the same keeps rows in agreement, or fails in both.
theorem put (h : r.AgreesOn read r') (hs : r.put column cell = .ok s)
    (hs' : r'.put column cell = .ok s') : s.AgreesOn read s' := by
  have ⟨ht, hi, hv⟩ := frame_of_put hs
  have ⟨ht', hi', hv'⟩ := frame_of_put hs'
  refine ⟨ht'.trans (h.table.trans ht.symm), hi'.trans (h.id.trans hi.symm),
    hv'.trans (h.version.trans hv.symm), fun x hx => ?_⟩
  simp only [text_of_put hs, text_of_put hs', h.text x hx]

theorem toOption_put (h : r.AgreesOn read r') (column : String) (cell : Cell) :
    Option.Rel (AgreesOn read) (r.put column cell).toOption (r'.put column cell).toOption := by
  by_cases hd : r.table.declares column
  case pos =>
    obtain ⟨s, hs⟩ := exists_put hd cell
    obtain ⟨s', hs'⟩ := exists_put (h.table ▸ hd : r'.table.declares column) cell
    rw [hs, hs']
    exact .some (h.put hs hs')
  case neg =>
    have hn (q : Row) (hq : q.table = r.table) : (q.put column cell).toOption = none := by
      rw [put_eq_error_iff.mpr ⟨hq ▸ hd, rfl⟩]
      rfl
    rw [hn r rfl, hn r' h.table]
    exact .none

theorem fillAncestor {ancestor : String} (h : r.AgreesOn read r')
    (hk : read ⟨foreignKey ancestor, .code⟩) (id : RowId) :
    (r.fillAncestor ancestor id).AgreesOn read (r'.fillAncestor ancestor id) := by
  have hp := h.toOption_put (foreignKey ancestor) (.plain id.text)
  simp only [Row.fillAncestor, h.table, h.parentId_eq hk]
  split
  case isFalse => exact h
  case isTrue  =>
    simp only [setParentId, putCode]
    cases e : r.put (foreignKey ancestor) (.plain id.text) <;>
      cases e' : r'.put (foreignKey ancestor) (.plain id.text) <;>
      simp only [e, e', Except.toOption] at hp ⊢
    case error.error => exact h
    case ok.ok =>
      cases hp
      case some hs => exact hs
    all_goals cases hp

theorem fillAncestors {ancestors : List (String × RowId)} (h : r.AgreesOn read r')
    (hk : ∀ x ∈ ancestors, read ⟨foreignKey x.1, .code⟩) :
    (ancestors.foldl (fun child (ancestor, id) => child.fillAncestor ancestor id) r).AgreesOn read
      (ancestors.foldl (fun child (ancestor, id) => child.fillAncestor ancestor id) r') := by
  induction ancestors generalizing r r'
  case nil => exact h
  case cons x xs hi =>
    have ⟨hx, hxs⟩ := List.forall_mem_cons.mp hk
    exact hi (h.fillAncestor hx x.2) hxs

-- A row agrees with what a write to a half that is not read makes of it.
theorem of_setHalf {x : CellHalf} {v : String} (h : r.setHalf x.column x.half v = .ok s)
    (hx : ¬ read x) : r.AgreesOn read s := by
  have ⟨ht, hi, hv⟩ := frame_of_put h
  refine ⟨ht, hi, hv, fun y hy => ?_⟩
  have hne : y ≠ x := fun e => hx (e ▸ hy)
  rw [text_setHalf h, if_neg hne]

-- A write to a column that the table lacks is no write in either row.
theorem setHalf (h : r.AgreesOn read r') (x : CellHalf) (v : String) :
    ((r.setHalf x.column x.half v).toOption.getD r).AgreesOn read
      ((r'.setHalf x.column x.half v).toOption.getD r') := by
  by_cases hd : r.table.declares x.column
  case neg =>
    have hn (q : Row) (hq : q.table = r.table) :
        (q.setHalf x.column x.half v).toOption.getD q = q := by
      rw [Row.setHalf, put_eq_error_iff.mpr ⟨hq ▸ hd, rfl⟩]
      rfl
    rw [hn r rfl, hn r' h.table]
    exact h
  case pos =>
    obtain ⟨s, hs⟩ : ∃ s, r.setHalf x.column x.half v = .ok s := exists_put hd _
    obtain ⟨s', hs'⟩ : ∃ s, r'.setHalf x.column x.half v = .ok s :=
      exists_put (h.table ▸ hd : r'.table.declares x.column) _
    have ⟨ht, hi, hv⟩ := frame_of_put hs
    have ⟨ht', hi', hv'⟩ := frame_of_put hs'
    rw [hs, hs']
    refine ⟨ht'.trans (h.table.trans ht.symm), hi'.trans (h.id.trans hi.symm),
      hv'.trans (h.version.trans hv.symm), fun y hy => ?_⟩
    simp only [Except.toOption, Option.getD_some, text_setHalf hs, text_setHalf hs', h.text y hy]

end AgreesOn

theorem Same.ancestorIds_eq (h : r.Same r') : r'.ancestorIds = r.ancestorIds := by
  simp only [ancestorIds, h.table, h.parentId_eq trivial]

-- A parent writes the same into its children, if these agree on the identities that it knows.
theorem AgreesOn.injectParent (hp : r.Same r') (h : s.AgreesOn read s')
    (hk : ∀ up ∈ r.table.parents, read ⟨up.foreignKey, .code⟩) :
    ((r.injectParent s).getD s).AgreesOn read ((r'.injectParent s').getD s') := by
  simp only [Row.injectParent, hp.ancestorIds_eq, h.table, hp.table, hp.id]
  cases s.table.relationTo r.table.name
  case none          => exact h
  case some relation =>
    have ho := h.toOption_put (foreignKey relation.parent) (.plain r.id.text)
    simp only [setParentId, putCode, Option.bind_eq_bind, Option.bind_some]
    generalize (s.put (foreignKey relation.parent) (.plain r.id.text)).toOption = o at ho ⊢
    generalize (s'.put (foreignKey relation.parent) (.plain r.id.text)).toOption = o' at ho ⊢
    cases ho
    case none    => exact h
    case some ha =>
      refine ha.fillAncestors fun x hx => ?_
      obtain ⟨up, hm, e, _⟩ := mem_ancestorIds.mp hx
      exact e ▸ hk up hm

end ReportExchange.Row
