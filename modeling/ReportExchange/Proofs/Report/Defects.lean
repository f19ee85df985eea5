import ReportExchange.Proofs.Formula.Defects
import ReportExchange.Proofs.Report.Walk

namespace ReportExchange

namespace Row

-- The identity of an ancestor as it is filled in, with the refusal of a write that the row lacks a
-- column for.
def fillStrictly (child : Row) (ancestor : String) (id : RowId) : Except Undeclared Row :=
  if child.table.declares (foreignKey ancestor) && (child.parentId ancestor).isNone then
    child.setParentId ancestor id
  else .ok child

-- All that a row writes into a row below it by a relation, up to the first write that is refused.
def injectStrictly (parent child : Row) (up : Relation) : Except Undeclared Row := do
  let child ← child.setParentId up.parent parent.id
  parent.ancestorIds.foldlM (fun child (ancestor, id) => child.fillStrictly ancestor id) child

theorem fillStrictly_eq (child : Row) (ancestor : String) (id : RowId) :
    child.fillStrictly ancestor id = .ok (child.fillAncestor ancestor id) := by
  rw [fillStrictly, fillAncestor]
  split
  case isFalse => rfl
  case isTrue hd =>
    have hd := (Bool.and_eq_true_iff.mp hd).1
    obtain ⟨s, hs⟩ : ∃ s, child.setParentId ancestor id = .ok s := exists_put hd _
    rw [hs]

theorem fillStrictly_foldlM (child : Row) (ancestors : List (String × RowId)) :
    ancestors.foldlM (fun child (ancestor, id) => child.fillStrictly ancestor id) child =
      .ok (ancestors.foldl (fun child (ancestor, id) => child.fillAncestor ancestor id) child) := by
  induction ancestors generalizing child
  case nil => rfl
  case cons x xs hi =>
    rw [List.foldlM_cons]
    change child.fillStrictly x.1 x.2 >>= _ = _
    rw [fillStrictly_eq]
    exact hi _

theorem injectStrictly_eq {parent child : Row} {up : Relation}
    (hu : child.table.relationTo parent.table.name = some up)
    (hd : child.table.declares up.foreignKey) :
    ∃ c, parent.injectStrictly child up = .ok c ∧ parent.injectParent child = some c := by
  obtain ⟨mid, hm⟩ : ∃ mid, child.setParentId up.parent parent.id = .ok mid := exists_put hd _
  rw [injectStrictly, injectParent, hm, hu]
  refine ⟨_, fillStrictly_foldlM mid parent.ancestorIds, ?_⟩
  simp only [Option.bind_eq_bind, Option.bind_some, hm]
  rfl

end Row

variable {a : Archive} {row root : Row}

-- What a row writes into the stored rows below it is refused by none of them.
theorem Archive.Sound.injects (h : a.Sound) (held : a.Holds row) {r : Relation}
    (hr : r ∈ row.table.directChildren) :
    ∃ child, a.catalog.table r.child = .ok child ∧
      ∀ s ∈ a.store.childrenOf child.name row.table.name row.id, ∃ up c,
        s.table.relationTo row.table.name = some up ∧ row.injectStrictly s up = .ok c ∧
        row.injectParent s = some c := by
  obtain ⟨hp, child, hf, hm⟩ := h.exists_child held hr
  refine ⟨child, by rw [Catalog.table, hf], fun s hs => ?_⟩
  have hrow := Store.mem_rows_of_mem_childrenOf hs
  have hs' := h.holds_of_mem hrow
  have ht : s.table = child := by
    have hh := hs'
    rw [Holds, Store.table_of_mem_rows hrow, Catalog.name_of_table? hf, hf] at hh
    exact (Option.some.inj hh).symm
  obtain ⟨up, hu⟩ := Table.exists_relationTo (ht ▸ hm : r ∈ s.table.parents)
  rw [hp] at hu
  have hd := h.catalog.keys _ hs'.mem up (Table.relationTo_parent hu).1
  obtain ⟨c, hc⟩ := Row.injectStrictly_eq hu hd
  exact ⟨up, c, hu, hc⟩

-- An export fails for want of a sender, or of room for what it writes.
theorem exportReport_ne_catalog (h : a.Sound) (held : a.Holds root) (sender : Sender)
    (stamp : Stamp) (op : Operation) (cause : CatalogError) :
    exportReport a sender stamp root op ≠ .error (.catalog cause) := by
  intro he
  obtain ⟨w, hw, _⟩ := Walk.through_ok h held
  rw [exportReport] at he
  split at he
  case h_1 => cases he
  case h_2 =>
    dsimp only at he
    rw [hw] at he
    split at he
    case isTrue  => cases he
    case isFalse => cases he

theorem exportInto_ne_catalog (h : a.Sound) (held : a.Holds root) (sender : Sender)
    (stamp : Stamp) (op : Operation) (sink : Sink) (cause : CatalogError) :
    exportInto a sender stamp root op sink ≠ .error (.catalog cause) := by
  intro he
  obtain he | ⟨e, _, he⟩ := bind_eq_error.mp he
  case inl => exact exportReport_ne_catalog h held sender stamp op cause he
  case inr =>
    obtain he | ⟨_, _, he⟩ := bind_eq_error.mp he
    case inr => cases he
    case inl =>
      rw [Sink.accept] at he
      split at he
      case h_1 => cases he
      case h_2 =>
        split at he
        case h_1 => cases he
        case h_2 => cases he

open Formula in
-- Over rows of the tables of a catalog that has been built, whichever of them are stored or cached:
-- every report is walked through to its end, the errors of formulas are those that remain, and no
-- write into a row finds its column missing.
theorem defects_found_at_build (h : a.Sound) :
    (∀ root, a.Holds root →
      (∃ records, flatten a root = .ok records) ∧
      ∀ sender stamp op sink cause,
        exportReport a sender stamp root op ≠ .error (.catalog cause) ∧
        exportInto a sender stamp root op sink ≠ .error (.catalog cause)) ∧
    (∀ row, a.Holds row → ∀ cache : ParentCache, cache.Filed a.catalog →
      (∀ f ∈ ((resolveRow a row).run cache).1.2, f.cause.Remains a.catalog) ∧
      ∀ column, row.table.declares column → ∀ cause,
        ((refreshColumn a row column).run cache).1.2 = .error cause → cause.Remains a.catalog) ∧
    (∀ row, a.Holds row →
      (∀ cache, ∃ s, Sweep.Passing row s ∧ ((resolveRow a row).run cache).1.1 = s.row) ∧
      ∀ s, Sweep.Passing row s → ∀ x ∈ targets row.table, ∀ value,
        ∃ r, s.row.setHalf x.cell.column x.cell.half value = .ok r) ∧
    ∀ row, a.Holds row → ∀ r ∈ row.table.directChildren,
      ∃ child, a.catalog.table r.child = .ok child ∧
        ∀ s ∈ a.store.childrenOf child.name row.table.name row.id, ∃ up c,
          s.table.relationTo row.table.name = some up ∧ row.injectStrictly s up = .ok c ∧
          row.injectParent s = some c := by
  refine ⟨fun root held => ⟨⟨_, flatten_eq h held⟩, fun sender stamp op sink cause => ?_⟩,
    fun row held cache hc => ?_, fun row held => ?_, fun row held r hr => h.injects held hr⟩
  case refine_1 =>
    exact ⟨exportReport_ne_catalog h held sender stamp op cause,
      exportInto_ne_catalog h held sender stamp op sink cause⟩
  case refine_2 =>
    exact ⟨resolveRow_remains h held hc, fun _ hd _ he => refreshColumn_remains h held hd hc he⟩
  case refine_3 =>
    exact ⟨passing_resolveRow row, fun s hs x hx value => hs.exists_setHalf hx value⟩

open Plates in
-- The grade of a well is looked for above it, through a cache that holds its plate.
theorem defects_found_at_build_plates :
    let well := (archive.store.rows "well").head (by decide)
    let cache := (({} : ParentCache).parent archive "plate" ⟨1⟩).2
    (∃ records, flatten archive plate = .ok records) ∧
    ((Formula.resolveRow archive well).run cache).1.2.map (·.cause) =
      [.unknownColumn "ghost" "well"] ∧
    ∀ f ∈ ((Formula.resolveRow archive well).run cache).1.2, f.cause.Remains archive.catalog := by
  intro well cache
  obtain ⟨hroot, hrow, _⟩ := defects_found_at_build sound
  have hc : cache.Filed archive.catalog :=
    .of_faithful sound (ParentCache.parent_faithful "plate" ⟨1⟩ .empty).2
  exact ⟨(hroot plate (by decide)).1, by decide +kernel, (hrow well (by decide) cache hc).1⟩

end ReportExchange
