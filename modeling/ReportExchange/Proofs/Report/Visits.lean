import Mathlib.Algebra.Group.Action.Defs
import Mathlib.Algebra.Order.BigOperators.Group.List
import Mathlib.Tactic.Ring
import ReportExchange.Proofs.Ancestor.Inject
import ReportExchange.Proofs.Formula.Frame
import ReportExchange.Proofs.Formula.Steady
import ReportExchange.Proofs.Report.Archive
import ReportExchange.Report.Walk

namespace ReportExchange

namespace Archive

-- The rows of a table that refer to a row: blanks aside, they hold its identity in their key to it.
def referring (a : Archive) (row : Row) (child : Table) : List Row :=
  (a.store.rows child.name).filter fun s =>
    (s.code (foreignKey row.table.name)).map Text.trim = some row.id.text

-- The rows below a row by one relation, each as the row has written into it. There are none where the
-- table says that reports do not go on to it.
def belowBy (a : Archive) (row : Row) (r : Relation) : List Row :=
  match a.catalog.table? r.child with
  | some child =>
    if child.traversable then (a.referring row child).map fun s => (row.injectParent s).getD s else []
  | none => []

-- The rows below a row: those by its last relations come first.
def below (a : Archive) (row : Row) : List Row :=
  (row.table.children.filter (·.direct)).reverse.flatMap (a.belowBy row)

-- A row with its formulas computed, and the faults of those that failed.
def resolved (a : Archive) (row : Row) : Row × List CellFault :=
  fresh (Formula.resolveRow a row)

variable {a : Archive} {row c : Row}

theorem referring_eq (row : Row) (child : Table) :
    a.referring row child = a.store.childrenOf child.name row.table.name row.id :=
  rfl

theorem referring_ascending (row : Row) (child : Table) :
    (a.referring row child).Pairwise fun r s => r.id.val < s.id.val :=
  (a.store.rows_ascending child.name).filter _

theorem below_eq (row : Row) :
    a.below row = row.table.directChildren.reverse.flatMap (a.belowBy row) :=
  rfl

-- What the walk puts on its stack for one table.
theorem childrenIn_eq_belowBy {r : Relation} {child : Table}
    (h : a.catalog.table? r.child = some child) : Walk.childrenIn a row child = a.belowBy row r := by
  rw [belowBy, h]
  rfl

theorem resolved_spares (row : Row) :
    Row.Spares (Formula.computed row.table) row (a.resolved row).1 :=
  (Formula.resolveRow_tidy row).1

theorem resolved_faults (row : Row) :
    ∀ f ∈ (a.resolved row).2, f.cell.column ∈ Formula.computed row.table :=
  (Formula.resolveRow_tidy row).2

theorem mem_below :
    c ∈ a.below row ↔ ∃ r ∈ row.table.directChildren, ∃ child,
      a.catalog.table? r.child = some child ∧ child.traversable ∧
      ∃ s ∈ a.store.childrenOf child.name row.table.name row.id,
        c = (row.injectParent s).getD s := by
  rw [below_eq, List.mem_flatMap]
  constructor
  case mp =>
    rintro ⟨r, hr, hc⟩
    rw [belowBy] at hc
    split at hc
    case h_2 => cases hc
    case h_1 child hf =>
      split at hc
      case isFalse => cases hc
      case isTrue ht =>
        have ⟨s, hs, e⟩ := List.mem_map.mp hc
        exact ⟨r, List.mem_reverse.mp hr, child, hf, ht, s, hs, e.symm⟩
  case mpr =>
    rintro ⟨r, hr, child, hf, ht, s, hs, rfl⟩
    refine ⟨r, List.mem_reverse.mpr hr, ?_⟩
    simp only [belowBy, hf, ht, if_true]
    exact List.mem_map_of_mem hs

namespace Sound

variable (h : a.Sound)

include h

theorem holds_below (hc : c ∈ a.below row) : a.Holds c := by
  have ⟨_, _, _, _, _, s, hs, e⟩ := mem_below.mp hc
  have held := h.holds_of_mem (Store.mem_rows_of_mem_childrenOf hs)
  exact e ▸ held.of_table_eq (Row.spares_injectParent row s).table

theorem exists_child (held : a.Holds row) {r : Relation} (hr : r ∈ row.table.directChildren) :
    r.parent = row.table.name ∧
      ∃ child, a.catalog.table? r.child = some child ∧ r ∈ child.parents := by
  have ⟨hp, child, hm, hn, hc⟩ := h.catalog.children _ held.mem r (List.mem_filter.mp hr).1
  exact ⟨hp, child, hn ▸ h.catalog.found child hm, hc⟩

-- A row below another is a stored one that the other has written into.
theorem stored_of_mem_below (held : a.Holds row) (hc : c ∈ a.below row) :
    ∃ s, a.store.find? s.table.name s.id = some s ∧ a.Holds s ∧
      c = (row.injectParent s).getD s ∧ ∃ r ∈ s.table.parents, r.parent = row.table.name := by
  obtain ⟨r, hr, child, hf, _, s, hs, e⟩ := mem_below.mp hc
  obtain ⟨hp, child', hf', hm⟩ := h.exists_child held hr
  cases Option.some.inj (hf.symm.trans hf')
  have hrow := Store.mem_rows_of_mem_childrenOf hs
  have hn := Store.table_of_mem_rows hrow
  have hs' := h.holds_of_mem hrow
  have ht : s.table = child := by
    have hh := hs'
    rw [Holds, hn, Catalog.name_of_table? hf, hf] at hh
    exact (Option.some.inj hh).symm
  exact ⟨s, hn ▸ Store.find?_eq_some_of_mem hrow, hs', e, r, ht ▸ hm, hp⟩

theorem childrenOf_eq (held : a.Holds row) : Walk.childrenOf a row = .ok (a.below row) := by
  have hg : ∀ r ∈ row.table.directChildren,
      (do let child ← a.catalog.table r.child; return Walk.childrenIn a row child) =
        Except.ok (ε := CatalogError) (a.belowBy row r) := by
    intro r hr
    have ⟨_, child, hf, _⟩ := h.exists_child held hr
    simp only [Catalog.table, hf, ← childrenIn_eq_belowBy hf]
    rfl
  rw [Walk.childrenOf, mapM_eq_ok hg, below_eq, List.flatMap_def, List.map_reverse]
  rfl

-- How far down the relations of a table lead.
noncomputable def height : String → Nat :=
  Classical.choose h.catalog.layered

theorem height_lt (held : a.Holds row) : h.height row.table.name < a.catalog.tables.length :=
  (Classical.choose_spec h.catalog.layered _ held.mem).1

theorem height_below (held : a.Holds row) (hc : c ∈ a.below row) :
    h.height c.table.name < h.height row.table.name := by
  have ⟨r, hr, child, hf, _, s, hs, e⟩ := mem_below.mp hc
  have hn : c.table.name = r.child := by
    rw [e, (Row.spares_injectParent row s).table, ← Catalog.name_of_table? hf]
    exact Store.table_of_mem_rows (Store.mem_rows_of_mem_childrenOf hs)
  rw [hn]
  exact (Classical.choose_spec h.catalog.layered _ held.mem).2 r hr

theorem length_below_le (held : a.Holds row) : (a.below row).length ≤ a.store.size := by
  have hg : ∀ r ∈ row.table.directChildren.reverse,
      (a.belowBy row r).length ≤ (a.store.rows r.child).length := by
    intro r _
    rw [belowBy]
    split
    case h_2 => exact Nat.zero_le _
    case h_1 child hf =>
      split
      case isFalse => exact Nat.zero_le _
      case isTrue  =>
        rw [List.length_map, ← Catalog.name_of_table? hf]
        exact Store.length_childrenOf_le _ _
  have hn : (row.table.directChildren.reverse.map (·.child)).Nodup := by
    rw [List.map_reverse, List.nodup_reverse]
    exact h.catalog.edges _ held.mem
  calc (a.below row).length
      ≤ (row.table.directChildren.reverse.map fun r => (a.store.rows r.child).length).sum := by
        rw [below_eq, List.length_flatMap]
        exact List.sum_le_sum hg
    _ = ((row.table.directChildren.reverse.map (·.child)).map
          fun name => (a.store.rows name).length).sum := by
        rw [List.map_map]
        rfl
    _ ≤ a.store.size := Store.sum_rows_le_size hn

end Sound

end Archive

-- A row of a report as it is exported, with what it inherits.
structure Visit where
  row       : Row
  faults    : List CellFault
  inherited : Fields

namespace Visit

def of (a : Archive) (row : Row) (inherited : Fields) : Visit where
  row       := (a.resolved row).1
  faults    := (a.resolved row).2
  inherited := inherited

-- What the row says in the columns for records, in their order. A column whose formula has failed is
-- left out, and one without a code is empty.
def own (v : Visit) : Fields :=
  v.row.table.columns.filterMap fun c =>
    if c.output = .record ∧ ∀ f ∈ v.faults, f.cell.column ≠ c.id then
      some (c.id, (v.row.code c.id).getD "")
    else none

-- What the row inherits under other names than those of its own fields, and these after it.
def fields (v : Visit) : Fields :=
  v.inherited.filter (fun f => ∀ g ∈ v.own, g.1 ≠ f.1) ++ v.own

-- What the visit gives to the report.
def record? (v : Visit) : Option Fields :=
  if v.row.table.generatesRecord then some v.fields else none

theorem mem_own_iff {v : Visit} {f : String × String} :
    f ∈ v.own ↔ ∃ c ∈ v.row.table.columns, (c.output = .record ∧ ∀ g ∈ v.faults, g.cell.column ≠ c.id) ∧
      (c.id, (v.row.code c.id).getD "") = f := by
  simp [own, List.mem_filterMap]

-- The walk comes to the same fields.
theorem ownFields_eq (v : Visit) : Walk.ownFields v.row (Walk.failedColumns v.faults) = v.own := by
  have hf (c : Column) : c.id ∉ Walk.failedColumns v.faults ↔ ∀ f ∈ v.faults, f.cell.column ≠ c.id := by
    simp [Walk.failedColumns]
  rw [Walk.ownFields, Table.columnsWith, List.filter_filter, ← List.filterMap_eq_filter,
    List.map_filterMap, own]
  refine List.filterMap_congr fun c _ => ?_
  by_cases ho : c.output = .record <;> by_cases hc : ∀ f ∈ v.faults, f.cell.column ≠ c.id <;>
    simp [Option.guard, hf, ho, hc]

theorem extend_own (v : Visit) : v.inherited.extend v.own = v.fields := by
  rw [Fields.extend, fields]
  congr 1
  refine List.filter_congr fun f _ => ?_
  rw [Bool.eq_iff_iff]
  simp

theorem get?_fields (v : Visit) (tag : String) :
    v.fields.get? tag = (v.own.get? tag).or (v.inherited.get? tag) := by
  rw [← extend_own, Fields.get?_extend]
  split
  case isTrue h =>
    have ⟨f, hf⟩ := Option.isSome_iff_exists.mp (List.find?_isSome.mpr (List.any_eq_true.mp h))
    simp [Fields.get?, hf]
  case isFalse h =>
    have hn : v.own.find? (·.1 = tag) = none :=
      List.find?_eq_none.mpr fun f hf e => h (List.any_eq_true.mpr ⟨f, hf, e⟩)
    simp [Fields.get?, hn]

end Visit

namespace Archive

variable {a : Archive} {row c : Row}

theorem Holds.visit (held : a.Holds row) (inherited : Fields) :
    a.Holds (Visit.of a row inherited).row :=
  held.of_table_eq (a.resolved_spares row).table

-- A row and all rows below it, in the order in which they are visited.
def visits (a : Archive) (h : a.Sound) (row : Row) (inherited : Fields) : List Visit :=
  if held : a.Holds row then
    let v := Visit.of a row inherited
    v :: (a.below v.row).attach.flatMap fun ⟨c, hc⟩ =>
      have := h.height_below (held.visit inherited) hc
      visits a h c v.fields
  else []
termination_by h.height row.table.name
decreasing_by
  have ht : v.row.table = row.table := (a.resolved_spares row).table
  exact ht ▸ this

theorem visits_eq (h : a.Sound) (held : a.Holds row) (inherited : Fields) :
    a.visits h row inherited =
      let v := Visit.of a row inherited
      v :: (a.below v.row).flatMap fun c => a.visits h c v.fields := by
  rw [visits, dif_pos held]
  simp only [List.flatMap_subtype, List.unattach_attach]

theorem length_visits_le (h : a.Sound) (held : a.Holds row) (inherited : Fields) {n : Nat}
    (hn : h.height row.table.name ≤ n) :
    (a.visits h row inherited).length ≤ (a.store.size + 1) ^ n := by
  have hv := held.visit inherited
  have ht : h.height (Visit.of a row inherited).row.table.name = h.height row.table.name := by
    rw [Visit.of, (a.resolved_spares row).table]
  rw [visits_eq h held]
  dsimp only
  induction n generalizing row inherited
  case zero =>
    have hb : a.below (Visit.of a row inherited).row = [] := by
      refine List.eq_nil_iff_forall_not_mem.mpr fun c hc => ?_
      have := h.height_below hv hc
      omega
    simp [hb]
  case succ n hi =>
    have hc : ∀ k ∈ (a.below (Visit.of a row inherited).row).map fun c =>
        (a.visits h c (Visit.of a row inherited).fields).length, k ≤ (a.store.size + 1) ^ n := by
      intro k hk
      have ⟨c, hc, e⟩ := List.mem_map.mp hk
      have hl := h.height_below hv hc
      have held' := h.holds_below hc
      rw [← e, visits_eq h held']
      refine hi held' _ (by omega) (held'.visit _) ?_
      rw [Visit.of, (a.resolved_spares c).table]
    have hs := List.sum_le_card_nsmul _ _ hc
    have hl := h.length_below_le hv
    rw [List.length_map, smul_eq_mul] at hs
    rw [List.length_cons, List.length_flatMap]
    calc _ ≤ (a.below (Visit.of a row inherited).row).length * (a.store.size + 1) ^ n + 1 :=
          Nat.succ_le_succ hs
      _ ≤ a.store.size * (a.store.size + 1) ^ n + (a.store.size + 1) ^ n :=
          Nat.add_le_add (Nat.mul_le_mul_right _ hl) (Nat.one_le_pow _ _ (Nat.succ_pos _))
      _ = (a.store.size + 1) ^ (n + 1) := by ring

-- The way down to a visit, itself first and the root last.
inductive Trail (a : Archive) (root : Row) : List Visit → Prop
  | root : Trail a root [Visit.of a root []]
  | down {v : Visit} {above : List Visit} {c : Row} :
    Trail a root (v :: above) → c ∈ a.below v.row →
    Trail a root (Visit.of a c v.fields :: v :: above)

namespace Trail

variable {root : Row} {v : Visit} {above : List Visit}

theorem of_mem_visits {inherited : Fields} (h : a.Sound) (held : a.Holds row)
    (t : Trail a root (Visit.of a row inherited :: above))
    (hm : v ∈ a.visits h row inherited) : ∃ above, Trail a root (v :: above) := by
  induction hn : h.height row.table.name using Nat.strong_induction_on
    generalizing row inherited above
  case _ n hi =>
    rw [visits_eq h held] at hm
    cases List.mem_cons.mp hm
    case inl e => exact ⟨above, e ▸ t⟩
    case inr hm =>
      have ⟨c, hc, hm⟩ := List.mem_flatMap.mp hm
      have hl := h.height_below (held.visit inherited) hc
      rw [Visit.of, (a.resolved_spares row).table, hn] at hl
      exact hi _ hl (h.holds_below hc) (t.down hc) hm rfl

-- Whatever is visited from the end of a trail is visited from its root.
theorem visits_subset (h : a.Sound) (held : a.Holds root) {trail : List Visit}
    (t : Trail a root trail) : ∀ {v above}, trail = v :: above →
    ∃ row inherited, a.Holds row ∧ v = Visit.of a row inherited ∧
      a.visits h row inherited ⊆ a.visits h root [] := by
  induction t
  case root =>
    rintro v above ⟨⟩
    exact ⟨root, [], held, rfl, List.Subset.refl _⟩
  case down v above c t hc hi =>
    rintro v above ⟨⟩
    have ⟨row, inherited, hr, e, hs⟩ := hi rfl
    refine ⟨c, _, h.holds_below hc, rfl, fun x hx => hs ?_⟩
    rw [visits_eq h hr]
    subst e
    exact List.mem_cons_of_mem _ (List.mem_flatMap.mpr ⟨c, hc, hx⟩)

-- A field comes from the nearest row on the way up that has it.
theorem get?_fields {trail : List Visit} (t : Trail a root trail) (tag : String) :
    ∀ {v above}, trail = v :: above →
      v.fields.get? tag = (v :: above).findSome? (·.own.get? tag) := by
  induction t
  case root =>
    rintro v above ⟨⟩
    rw [Visit.get?_fields, List.findSome?_cons]
    cases (Visit.of a root []).own.get? tag <;> rfl
  case down v above c t hc hi =>
    rintro w above ⟨⟩
    rw [Visit.get?_fields, List.findSome?_cons]
    cases (Visit.of a c v.fields).own.get? tag
    case some => rfl
    case none => exact hi rfl

end Trail

theorem mem_visits_iff {root : Row} {v : Visit} (h : a.Sound) (held : a.Holds root) :
    v ∈ a.visits h root [] ↔ ∃ above, Trail a root (v :: above) := by
  constructor
  case mp => exact Trail.of_mem_visits h held .root
  case mpr =>
    intro ⟨above, t⟩
    have ⟨row, inherited, hr, e, hs⟩ := t.visits_subset h held rfl
    refine hs ?_
    rw [visits_eq h hr]
    exact e ▸ List.mem_cons_self

end Archive

end ReportExchange
