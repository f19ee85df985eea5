import ReportExchange.Proofs.Identity
import ReportExchange.Proofs.Row.Spares

namespace ReportExchange

theorem foreignKey_injective {s t : String} (h : foreignKey s = foreignKey t) : s = t := by
  simpa [foreignKey] using h

namespace Table

variable {t : Table} {parent : String} {r : Relation}

theorem relationTo_parent (h : t.relationTo parent = some r) :
    r ∈ t.parents ∧ r.parent = parent := by
  have hc : r ∈ t.parents.filter (·.parent = parent) := by
    rw [relationTo] at h
    split at h
    case h_1 hd =>
      cases h
      exact (List.mem_filter.mp (List.mem_of_getLast? hd)).1
    case h_2 => exact List.mem_of_getLast? h
  have ⟨hm, hp⟩ := List.mem_filter.mp hc
  exact ⟨hm, of_decide_eq_true hp⟩

theorem exists_relationTo (h : r ∈ t.parents) :
    ∃ s, t.relationTo r.parent = some s := by
  rw [relationTo]
  split
  case h_1 s _ => exact ⟨s, rfl⟩
  case h_2 =>
    refine ⟨_, List.getLast?_eq_some_getLast ?_⟩
    exact List.ne_nil_of_mem (List.mem_filter.mpr ⟨h, decide_eq_true rfl⟩)

theorem relationTo_eq_none_iff : t.relationTo parent = none ↔ ∀ r ∈ t.parents, r.parent ≠ parent := by
  constructor
  case mp =>
    rintro hn r hr rfl
    obtain ⟨s, hs⟩ := exists_relationTo hr
    cases hn.symm.trans hs
  case mpr =>
    intro h
    refine Option.eq_none_iff_forall_ne_some.mpr fun r hr => ?_
    obtain ⟨hm, hp⟩ := relationTo_parent hr
    exact h r hm hp

-- No other relation comes before a direct one.
theorem direct_relationTo (hr : r ∈ t.parents) (hd : r.direct) :
    ∃ s, t.relationTo r.parent = some s ∧ s.direct := by
  have hm : r ∈ (t.parents.filter (·.parent = r.parent)).filter (·.direct) := by simp [hr, hd]
  obtain ⟨s, hs⟩ : ∃ s,
      ((t.parents.filter (·.parent = r.parent)).filter (·.direct)).getLast? = some s :=
    ⟨_, List.getLast?_eq_some_getLast (List.ne_nil_of_mem hm)⟩
  refine ⟨s, by simp only [relationTo, hs], ?_⟩
  exact (List.mem_filter.mp (List.mem_of_getLast? hs)).2

end Table

namespace Cell

-- The identity that a cell reads as.
def identity? (cell : Cell) : Option RowId :=
  (RowId.read? cell.code).filter (·.isSet)

theorem identity?_plain {id : RowId} (h : id.isSet) : (plain id.text).identity? = some id := by
  simp [identity?, plain, RowId.read?_text h, h]

end Cell

namespace Table

-- What becomes of a cell when an identity is filled in: one that reads as no identity gives way, if
-- the table has the column.
def filled (t : Table) (column : String) (id : RowId) (cell : Option Cell) : Option Cell :=
  if t.declares column ∧ cell.bind Cell.identity? = none then some (.plain id.text) else cell

-- The identity that has been filled in first stays.
theorem filled_filled {t : Table} {column : String} {id : RowId} (h : id.isSet) (other : RowId)
    (cell : Option Cell) :
    t.filled column other (t.filled column id cell) = t.filled column id cell := by
  by_cases hf : t.declares column ∧ cell.bind Cell.identity? = none
  case pos => simp only [filled, if_pos hf, Option.bind_some, Cell.identity?_plain h]; simp
  case neg => simp only [filled, if_neg hf]

end Table

namespace Row

-- The identity that a cell of the row reads as.
def identityIn (r : Row) (column : String) : Option RowId :=
  ((r.code column).bind RowId.read?).filter (·.isSet)

-- The identity that a row offers to the rows below it for one of their columns.
def handedDown (r : Row) (column : String) : Option RowId :=
  (r.ancestorIds.find? (foreignKey ·.1 = column)).map (·.2)

-- The columns that a row may write into in a row below it.
def keysBelow (r : Row) : List String :=
  foreignKey r.table.name :: r.ancestorIds.map (foreignKey ·.1)

-- The code that a column of a child comes to, if it is not the key of the parent itself.
def codeBelow (parent child : Row) (column : String) : Option String :=
  match parent.handedDown column with
  | none    => child.code column
  | some id => if (child.identityIn column).isSome then child.code column else some id.text

theorem mem_ancestorIds {r : Row} {table : String} {id : RowId} :
    (table, id) ∈ r.ancestorIds ↔
      ∃ up ∈ r.table.parents, up.parent = table ∧ r.parentId table = some id := by
  rw [ancestorIds, List.mem_filterMap]
  constructor
  case mp =>
    rintro ⟨up, hm, h⟩
    have ⟨id', hi, e⟩ := Option.map_eq_some_iff.mp h
    cases e
    exact ⟨up, hm, rfl, hi⟩
  case mpr =>
    rintro ⟨up, hm, rfl, hi⟩
    exact ⟨up, hm, by rw [hi]; rfl⟩

theorem handedDown_eq_some_iff {r : Row} {column : String} {id : RowId} :
    r.handedDown column = some id ↔
      ∃ up ∈ r.table.parents, up.foreignKey = column ∧ r.parentId up.parent = some id := by
  rw [handedDown, Option.map_eq_some_iff]
  constructor
  case mp =>
    rintro ⟨⟨table, _⟩, hf, rfl⟩
    have ⟨up, hm, hp, hi⟩ := mem_ancestorIds.mp (List.mem_of_find?_eq_some hf)
    have hk := List.find?_some hf
    subst hp
    exact ⟨up, hm, of_decide_eq_true hk, hi⟩
  case mpr =>
    rintro ⟨up, hm, rfl, hi⟩
    have hx := mem_ancestorIds.mpr ⟨up, hm, rfl, hi⟩
    -- Another entry for the column is for the same table, so it has the same identity.
    cases hf : r.ancestorIds.find? (foreignKey ·.1 = up.foreignKey)
    case none =>
      have hn := List.find?_eq_none.mp hf _ hx
      exact absurd (decide_eq_true rfl) hn
    case some e =>
      refine ⟨e, rfl, ?_⟩
      have hk := List.find?_some hf
      have ⟨_, _, _, he⟩ := mem_ancestorIds.mp (List.mem_of_find?_eq_some hf)
      rw [foreignKey_injective (of_decide_eq_true hk), hi] at he
      exact (Option.some.inj he).symm

theorem exists_put {r : Row} {column : String} (h : r.table.declares column) (cell : Cell) :
    ∃ s, r.put column cell = .ok s := by
  rw [put, dif_pos h]
  exact ⟨_, rfl⟩

theorem identityIn_eq (r : Row) (column : String) :
    r.identityIn column = (r.get column).bind Cell.identity? := by
  rw [identityIn, code, get]
  cases r.cells column <;> rfl

theorem isSet_of_mem_ancestorIds {r : Row} {x : String × RowId} (h : x ∈ r.ancestorIds) :
    x.2.isSet := by
  have ⟨_, _, _, hi⟩ := mem_ancestorIds.mp h
  exact (Option.filter_eq_some_iff.mp hi).2

theorem fillAncestor_spares (child : Row) (ancestor : String) (id : RowId) :
    Spares [foreignKey ancestor] child (child.fillAncestor ancestor id) := by
  rw [fillAncestor]
  split
  case isFalse => exact .refl _ child
  case isTrue  =>
    cases h : child.setParentId ancestor id
    case error => exact .refl _ child
    case ok s  => exact spares_of_put h

theorem get_fillAncestor (child : Row) (ancestor : String) (id : RowId) (column : String) :
    (child.fillAncestor ancestor id).get column =
      if foreignKey ancestor = column then child.table.filled column id (child.get column)
      else child.get column := by
  by_cases hk : foreignKey ancestor = column
  case neg =>
    rw [if_neg hk]
    exact (fillAncestor_spares child ancestor id).cells column (by simpa using Ne.symm hk)
  case pos =>
    subst hk
    have hi : child.parentId ancestor = (child.get (foreignKey ancestor)).bind Cell.identity? :=
      child.identityIn_eq (foreignKey ancestor)
    rw [fillAncestor, Table.filled, ← hi, if_pos rfl]
    by_cases hf : child.table.declares (foreignKey ancestor) ∧ child.parentId ancestor = none
    case neg => rw [if_neg hf, if_neg (by simpa using hf)]
    case pos =>
      obtain ⟨s, hs⟩ : ∃ s, child.setParentId ancestor id = .ok s := exists_put hf.1 _
      simpa [hf, hs] using get_of_put hs (foreignKey ancestor)

-- The ancestors of a list are filled in one after the other. The first one that a column is the key
-- of decides, as it leaves an identity there.
theorem get_fillAncestors {ancestors : List (String × RowId)} (hs : ∀ x ∈ ancestors, x.2.isSet)
    (child : Row) (column : String) :
    (ancestors.foldl (fun child (ancestor, id) => child.fillAncestor ancestor id) child).get
        column =
      match (ancestors.find? (foreignKey ·.1 = column)).map (·.2) with
      | none    => child.get column
      | some id => child.table.filled column id (child.get column) := by
  induction ancestors generalizing child
  case nil => rfl
  case cons x xs hi =>
    obtain ⟨hx, hs⟩ := List.forall_mem_cons.mp hs
    have ht := (fillAncestor_spares child x.1 x.2).table
    rw [List.foldl_cons, hi hs, get_fillAncestor, ht]
    by_cases hk : foreignKey x.1 = column
    case neg => simp [hk]
    case pos =>
      rw [List.find?_cons_of_pos (by simpa using hk), if_pos hk]
      cases xs.find? (foreignKey ·.1 = column)
      case none   => rfl
      case some y => exact Table.filled_filled hx y.2 _

theorem spares_fillAncestors (child : Row) (ancestors : List (String × RowId)) :
    Spares (ancestors.map (foreignKey ·.1)) child
      (ancestors.foldl (fun child (ancestor, id) => child.fillAncestor ancestor id) child) := by
  induction ancestors generalizing child
  case nil => exact .refl _ child
  case cons x xs hi =>
    have hs := fillAncestor_spares child x.1 x.2
    have hx := hi (child.fillAncestor x.1 x.2)
    exact (hs.mono (by simp)).trans (hx.mono (List.subset_cons_self _ _))

section Inject

variable {parent child : Row}

theorem injectParent_eq_some_iff {s : Row} :
    parent.injectParent child = some s ↔ ∃ r mid,
      child.table.relationTo parent.table.name = some r ∧
      child.setParentId parent.table.name parent.id = .ok mid ∧
      parent.ancestorIds.foldl (fun child (ancestor, id) => child.fillAncestor ancestor id) mid =
        s := by
  rw [injectParent]
  cases hr : child.table.relationTo parent.table.name
  case none   => simp
  case some r =>
    rw [Option.bind_eq_bind, Option.bind_some, (Table.relationTo_parent hr).2]
    cases child.setParentId parent.table.name parent.id <;> simp [Except.toOption]

theorem spares_of_injectParent {s : Row} (h : parent.injectParent child = some s) :
    Spares parent.keysBelow child s := by
  obtain ⟨_, mid, _, hm, rfl⟩ := injectParent_eq_some_iff.mp h
  refine ((spares_of_put hm).mono ?_).trans ((spares_fillAncestors mid _).mono ?_)
  case refine_1 => simp [keysBelow]
  case refine_2 => exact List.subset_cons_self _ _

theorem spares_injectParent (parent child : Row) :
    Spares parent.keysBelow child ((parent.injectParent child).getD child) := by
  cases hi : parent.injectParent child
  case none   => exact .refl _ child
  case some s => exact spares_of_injectParent hi

-- What the parent writes into a cell of the child, its own key apart.
def injected (parent : Row) (t : Table) (column : String) (cell : Option Cell) : Option Cell :=
  match parent.handedDown column with
  | none    => cell
  | some id => t.filled column id cell

-- An identity that is there already stays.
theorem injected_of_identity {t : Table} {column : String} {cell : Option Cell} {id : RowId}
    (h : cell.bind Cell.identity? = some id) : parent.injected t column cell = cell := by
  rw [injected]
  cases parent.handedDown column
  case none   => rfl
  case some _ => exact if_neg (by simp [h])

theorem injected_injected (t : Table) (column : String) (cell : Option Cell) :
    parent.injected t column (parent.injected t column cell) = parent.injected t column cell := by
  rw [injected]
  cases hh : parent.handedDown column
  case none    => rfl
  case some id =>
    obtain ⟨up, _, _, hi⟩ := handedDown_eq_some_iff.mp hh
    simpa [injected, hh] using Table.filled_filled (Option.filter_eq_some_iff.mp hi).2 id cell

theorem get_of_injectParent {s : Row} (h : parent.injectParent child = some s) (column : String) :
    s.get column = parent.injected child.table column
      (if column = foreignKey parent.table.name then some (.plain parent.id.text)
        else child.get column) := by
  obtain ⟨_, mid, _, hm, rfl⟩ := injectParent_eq_some_iff.mp h
  have hs : ∀ x ∈ parent.ancestorIds, x.2.isSet := fun _ => isSet_of_mem_ancestorIds
  rw [get_fillAncestors hs, get_of_put hm, (spares_of_put hm).table]
  rfl

theorem parentId_of_injectParent {s : Row} (h : parent.injectParent child = some s)
    (hp : parent.id.isSet) : s.get (foreignKey parent.table.name) = some (.plain parent.id.text) ∧
      s.parentId parent.table.name = some parent.id := by
  have hi : (some (Cell.plain parent.id.text)).bind Cell.identity? = some parent.id :=
    Cell.identity?_plain hp
  have hg : s.get (foreignKey parent.table.name) = some (.plain parent.id.text) := by
    rw [get_of_injectParent h, if_pos rfl, injected_of_identity hi]
  exact ⟨hg, (s.identityIn_eq _).trans (hg ▸ hi)⟩

theorem exists_injectParent {r : Relation} (hr : r ∈ child.table.parents)
    (hp : r.parent = parent.table.name) (hk : child.table.declares r.foreignKey) :
    ∃ s, parent.injectParent child = some s := by
  obtain ⟨up, hu⟩ := Table.exists_relationTo hr
  rw [Relation.foreignKey, hp] at hk
  obtain ⟨mid, hm⟩ : ∃ mid, child.setParentId parent.table.name parent.id = .ok mid :=
    exists_put hk _
  exact ⟨_, injectParent_eq_some_iff.mpr ⟨up, mid, hp ▸ hu, hm, rfl⟩⟩

theorem code_injectParent {r : Relation} {column : String} (hr : r ∈ child.table.parents)
    (hp : r.parent = parent.table.name) (hk : child.table.declares r.foreignKey)
    (hd : child.table.declares column) (hc : column ≠ foreignKey parent.table.name) :
    ((parent.injectParent child).getD child).code column = parent.codeBelow child column := by
  obtain ⟨s, hs⟩ := exists_injectParent hr hp hk
  have hg := get_of_injectParent hs column
  rw [if_neg hc, injected] at hg
  have hcode : s.code column = (s.get column).map (·.code) := rfl
  rw [hs, Option.getD_some, codeBelow, hcode, hg]
  cases parent.handedDown column
  case none    => rfl
  case some id =>
    rw [identityIn_eq]
    cases hi : (child.get column).bind Cell.identity?
    case none   => simp [Table.filled, hd, hi, Cell.plain]
    case some _ =>
      have hf : child.table.filled column id (child.get column) = child.get column :=
        if_neg (by simp [hi])
      simp only [Option.isSome_some, if_true, hf]
      rfl

end Inject

end Row

end ReportExchange
