import ReportExchange.Proofs.Identity
import ReportExchange.Proofs.Report.Walk

namespace ReportExchange

-- Where a row is stored.
abbrev Key := String × RowId

def Row.key (r : Row) : Key :=
  (r.table.name, r.id)

theorem Table.directParent_unique {t : Table} (h : t.directParents.length ≤ 1) {r s : Relation}
    (hr : r ∈ t.directParents) (hs : s ∈ t.directParents) : r = s := by
  match hd : t.directParents, h with
  | [q], _ =>
    rw [hd] at hr hs
    exact (List.mem_singleton.mp hr).trans (List.mem_singleton.mp hs).symm
  | [], _ => simp [hd] at hr

theorem Row.key_injectParent (r s : Row) : ((r.injectParent s).getD s).key = s.key := by
  have hi := spares_injectParent r s
  simp [key, hi.table, hi.id]

namespace Archive

variable {a : Archive} {row c : Row} {k l m : Key} {ks : List Key}

-- The second row is stored below the first one, in a table that exports descend into.
def Leads (a : Archive) (k l : Key) : Prop :=
  ∃ t r child s, a.catalog.table? k.1 = some t ∧ r ∈ t.directChildren ∧
    a.catalog.table? r.child = some child ∧ child.traversable ∧
    s ∈ a.store.childrenOf child.name k.1 k.2 ∧ s.key = l

-- A chain of rows from the one just below the first down to the last.
inductive Chain (a : Archive) : Key → List Key → Key → Prop
  | nil {k : Key} : Chain a k [] k
  | cons {k l m : Key} {ks : List Key} : a.Leads k l → Chain a l ks m → Chain a k (l :: ks) m

theorem key_resolved (row : Row) : (a.resolved row).1.key = row.key := by
  have hs := a.resolved_spares row
  simp [Row.key, hs.table, hs.id]

theorem Holds.resolved (held : a.Holds row) : a.Holds (a.resolved row).1 :=
  held.of_table_eq (a.resolved_spares row).table

theorem mem_keys_below (held : a.Holds row) : k ∈ (a.below row).map Row.key ↔ a.Leads row.key k := by
  simp only [List.mem_map, mem_below]
  constructor
  case mp =>
    rintro ⟨_, ⟨r, hr, child, hf, ht, s, hs, rfl⟩, rfl⟩
    exact ⟨row.table, r, child, s, held, hr, hf, ht, hs, (row.key_injectParent s).symm⟩
  case mpr =>
    rintro ⟨t, r, child, s, hk, hr, hf, ht, hs, rfl⟩
    cases Option.some.inj (held.symm.trans hk)
    exact ⟨_, ⟨r, hr, child, hf, ht, s, hs, rfl⟩, row.key_injectParent s⟩

namespace Sound

variable (h : a.Sound)

include h

-- Rows below a row come from different tables, or from different places of one table.
theorem nodup_keys_below (held : a.Holds row) : ((a.below row).map Row.key).Nodup := by
  have keys_belowBy (r : Relation) (k) (hk : k ∈ (a.belowBy row r).map Row.key) : k.1 = r.child := by
    obtain ⟨c, hc, rfl⟩ := List.mem_map.mp hk
    rw [belowBy] at hc
    split at hc
    case h_2 => cases hc
    case h_1 child hf =>
      split at hc
      case isFalse => cases hc
      case isTrue  =>
        obtain ⟨s, hs, rfl⟩ := List.mem_map.mp hc
        have hn := Store.table_of_mem_rows (Store.mem_rows_of_mem_childrenOf hs)
        rw [Row.key_injectParent]
        exact hn.trans (Catalog.name_of_table? hf)
  rw [below, List.map_flatMap, List.nodup_flatMap]
  constructor
  case left =>
    intro r _
    rw [belowBy]
    split
    case h_2 => exact List.nodup_nil
    case h_1 child _ =>
      split
      case isFalse => exact List.nodup_nil
      case isTrue  =>
        have hs : (a.store.childrenOf child.name row.table.name row.id).Sublist
            (a.store.rows child.name) := List.filter_sublist
        have hk : (Row.key ∘ fun c => (row.injectParent c).getD c) = Row.key :=
          funext row.key_injectParent
        rw [List.map_map, hk]
        refine .of_map Prod.snd ?_
        rw [List.map_map]
        exact (a.store.ids_nodup child.name).sublist (hs.map _)
  case right =>
    have he : (row.table.directChildren.reverse.map (·.child)).Nodup := by
      rw [List.map_reverse, List.nodup_reverse]
      exact h.catalog.edges _ held.mem
    refine (List.pairwise_map.mp he).imp fun {r r'} hne k hk hk' => hne ?_
    exact (keys_belowBy r k hk).symm.trans (keys_belowBy r' k hk')

theorem height_leads (hl : a.Leads k l) : h.height l.1 < h.height k.1 := by
  obtain ⟨t, r, child, s, hk, hr, hf, _, hs, rfl⟩ := hl
  have hn : s.key.1 = r.child :=
    (Store.table_of_mem_rows (Store.mem_rows_of_mem_childrenOf hs)).trans (Catalog.name_of_table? hf)
  have hm := List.mem_of_find?_eq_some hk
  have hh := (Classical.choose_spec h.catalog.layered t hm).2 r hr
  rw [hn, ← Catalog.name_of_table? hk]
  exact hh

-- Seen from below, a row is led to by one of its table's parents and by what its key for it says.
theorem parent_of_leads (hl : a.Leads k l) :
    ∃ child ∈ a.catalog.tables, child.name = l.1 ∧ ∃ r ∈ child.directParents, r.parent = k.1 ∧
      ∃ s ∈ a.store.rows l.1, s.id = l.2 ∧
        (s.code r.foreignKey).map Text.trim = some k.2.text := by
  obtain ⟨t, r, child, s, hk, hr, hf, _, hs, rfl⟩ := hl
  have hn : s.table.name = child.name :=
    Store.table_of_mem_rows (Store.mem_rows_of_mem_childrenOf hs)
  have ⟨hr, hd⟩ := List.mem_filter.mp hr
  obtain ⟨hp, child', hm, hn', hc⟩ := h.catalog.children t (List.mem_of_find?_eq_some hk) r hr
  have hf' : a.catalog.table? r.child = some child' := hn' ▸ h.catalog.found child' hm
  cases Option.some.inj (hf.symm.trans hf')
  have hp : r.parent = k.1 := hp.trans (Catalog.name_of_table? hk)
  have ⟨hrow, hc'⟩ := List.mem_filter.mp hs
  refine ⟨child, hm, hn.symm, r, List.mem_filter.mpr ⟨hc, hd⟩, hp, s, ?_, rfl, ?_⟩
  case refine_1 =>
    change s ∈ a.store.rows s.table.name
    rw [hn]
    exact hrow
  case refine_2 =>
    rw [Relation.foreignKey, hp]
    exact of_decide_eq_true hc'

-- In a catalog without a table below two others, a row is below one other row at most.
theorem leads_unique (hp : ∀ t ∈ a.catalog.tables, t.directParents.length ≤ 1)
    (hk : a.Leads k m) (hl : a.Leads l m) : k = l := by
  obtain ⟨child, hm, hn, r, hr, hrk, s, hs, hi, hc⟩ := h.parent_of_leads hk
  obtain ⟨child', hm', hn', r', hr', hrl, s', hs', hi', hc'⟩ := h.parent_of_leads hl
  have ht : child = child' := by
    have hf := h.catalog.found child hm
    rw [hn, ← hn', h.catalog.found child' hm'] at hf
    exact (Option.some.inj hf).symm
  subst ht
  cases Table.directParent_unique (hp child hm) hr hr'
  have hss : s = s' := by
    have hf := Store.find?_eq_some_of_mem hs
    rw [hi, ← hi', Store.find?_eq_some_of_mem hs'] at hf
    exact (Option.some.inj hf).symm
  subst hss
  refine Prod.ext (hrk.symm.trans hrl) (RowId.text_injective ?_)
  exact Option.some.inj (hc.symm.trans hc')

end Sound

-- All chains from a row to itself and to the rows below it, in the order of the visits.
noncomputable def chains (a : Archive) (h : a.Sound) (row : Row) : List (List Key × Key) :=
  if held : a.Holds row then
    ([], row.key) :: (a.below (a.resolved row).1).attach.flatMap fun ⟨c, hc⟩ =>
      have := h.height_below held.resolved hc
      (chains a h c).map fun (ks, k) => (c.key :: ks, k)
  else []
termination_by h.height row.table.name
decreasing_by
  have ht : (a.resolved row).1.table = row.table := (a.resolved_spares row).table
  exact ht ▸ this

theorem chains_eq (h : a.Sound) (held : a.Holds row) :
    a.chains h row = ([], row.key) :: (a.below (a.resolved row).1).flatMap fun c =>
      (a.chains h c).map fun (ks, k) => (c.key :: ks, k) := by
  rw [chains, dif_pos held]
  simp only [List.flatMap_subtype, List.unattach_attach]

-- Every chain stands for one visit, which is to the row at its end.
theorem keys_visits (h : a.Sound) (held : a.Holds row) (inherited : Fields) :
    (a.visits h row inherited).map (·.row.key) = (a.chains h row).map (·.2) := by
  induction hn : h.height row.table.name using Nat.strong_induction_on
    generalizing row inherited
  case _ n hi =>
    have hb : (Visit.of a row inherited).row = (a.resolved row).1 := rfl
    rw [visits_eq h held, chains_eq h held]
    simp only [List.map_cons, hb, key_resolved, List.map_flatMap, List.map_map]
    refine congrArg (row.key :: ·) (List.flatMap_congr fun c hc => ?_)
    have hl := h.height_below held.resolved hc
    rw [(a.resolved_spares row).table, hn] at hl
    exact hi _ hl (h.holds_below hc) _ rfl

theorem mem_chains (h : a.Sound) (held : a.Holds row) :
    (ks, k) ∈ a.chains h row ↔ a.Chain row.key ks k := by
  induction hn : h.height row.table.name using Nat.strong_induction_on generalizing row ks
  case _ n hi =>
    have below {c : Row} (hc : c ∈ a.below (a.resolved row).1) {ks : List Key} :
        (ks, k) ∈ a.chains h c ↔ a.Chain c.key ks k := by
      have hl := h.height_below held.resolved hc
      rw [(a.resolved_spares row).table, hn] at hl
      exact hi _ hl (h.holds_below hc) rfl
    rw [chains_eq h held]
    simp only [List.mem_cons, List.mem_flatMap, List.mem_map, Prod.mk.injEq]
    constructor
    case mp =>
      intro hm
      cases hm
      case inl e =>
        obtain ⟨rfl, rfl⟩ := e
        exact .nil
      case inr hm =>
        obtain ⟨c, hc, ⟨ks', _⟩, hm, rfl, rfl⟩ := hm
        refine .cons ?_ ((below hc).mp hm)
        rw [← key_resolved, ← mem_keys_below held.resolved]
        exact List.mem_map_of_mem hc
    case mpr =>
      intro hc
      cases hc with
      | nil => exact .inl ⟨rfl, rfl⟩
      | cons hl hc =>
        rw [← key_resolved, ← mem_keys_below held.resolved] at hl
        obtain ⟨c, hm, rfl⟩ := List.mem_map.mp hl
        exact .inr ⟨c, hm, ⟨_, k⟩, (below hm).mpr hc, rfl, rfl⟩

theorem nodup_chains (h : a.Sound) (held : a.Holds row) : (a.chains h row).Nodup := by
  induction hn : h.height row.table.name using Nat.strong_induction_on generalizing row
  case _ n hi =>
    rw [chains_eq h held, List.nodup_cons]
    constructor
    case left => simp
    case right =>
      rw [List.nodup_flatMap]
      constructor
      case left =>
        intro c hc
        have hl := h.height_below held.resolved hc
        rw [(a.resolved_spares row).table, hn] at hl
        refine (hi _ hl (h.holds_below hc) rfl).map fun x y e => ?_
        simpa [Prod.ext_iff] using e
      case right =>
        refine (List.pairwise_map.mp (h.nodup_keys_below held.resolved)).imp ?_
        intro c c' hne x hx hx'
        simp only [List.mem_map] at hx hx'
        obtain ⟨_, _, rfl⟩ := hx
        obtain ⟨_, _, e⟩ := hx'
        simp only [Prod.mk.injEq, List.cons.injEq] at e
        exact hne e.1.1.symm

namespace Chain

theorem cases_last (h : a.Chain k ks m) :
    (ks = [] ∧ k = m) ∨ ∃ above p, ks = above ++ [m] ∧ a.Chain k above p ∧ a.Leads p m := by
  induction h with
  | nil => exact .inl ⟨rfl, rfl⟩
  | @cons k l m ks hl _ hi =>
    cases hi
    case inl e =>
      obtain ⟨rfl, rfl⟩ := e
      exact .inr ⟨[], k, rfl, .nil, hl⟩
    case inr hi =>
      obtain ⟨above, p, rfl, hc, hp⟩ := hi
      exact .inr ⟨l :: above, p, rfl, .cons hl hc, hp⟩

theorem height_le (h : a.Sound) (hc : a.Chain k ks m) : h.height m.1 ≤ h.height k.1 := by
  induction hc with
  | nil          => exact Nat.le_refl _
  | cons hl _ hi => exact Nat.le_trans hi (Nat.le_of_lt (h.height_leads hl))

-- No chain comes back to where it has started.
theorem not_leads (h : a.Sound) (hc : a.Chain k ks l) : ¬ a.Leads l k := fun hl =>
  Nat.lt_irrefl _ (Nat.lt_of_lt_of_le (h.height_leads hl) (hc.height_le h))

theorem unique (h : a.Sound) (hp : ∀ t ∈ a.catalog.tables, t.directParents.length ≤ 1)
    {ks' : List Key} (hc : a.Chain k ks m) (hc' : a.Chain k ks' m) : ks = ks' := by
  -- The chains are followed from their common end upwards.
  induction hn : ks.length generalizing ks ks' m
  case zero =>
    cases List.length_eq_zero_iff.mp hn
    cases hc
    cases hc'.cases_last
    case inl e => exact e.1.symm
    case inr e =>
      obtain ⟨_, _, _, hc', hl⟩ := e
      exact absurd hl (hc'.not_leads h)
  case succ n hi =>
    cases hc.cases_last
    case inl e => simp [e.1] at hn
    case inr e =>
      obtain ⟨above, p, rfl, hu, hl⟩ := e
      cases hc'.cases_last
      case inl e =>
        obtain ⟨_, rfl⟩ := e
        exact absurd hl (hu.not_leads h)
      case inr e =>
        obtain ⟨above', p', rfl, hu', hl'⟩ := e
        cases h.leads_unique hp hl hl'
        rw [hi hu hu' (by simpa using hn)]

end Chain

-- A row comes up at most once exactly if there is one chain to it at most.
theorem count_visits_le_one_iff (h : a.Sound) (held : a.Holds row) (k : Key) :
    ((a.visits h row []).map (·.row.key)).count k ≤ 1 ↔
      ∀ ks ks', a.Chain row.key ks k → a.Chain row.key ks' k → ks = ks' := by
  have hc : ((a.visits h row []).map (·.row.key)).count k =
      ((a.chains h row).filter (·.2 = k)).length := by
    simp [keys_visits h held, List.count_eq_length_filter, List.filter_map, Function.comp_def,
      beq_eq_decide]
  have hm {ks : List Key} :
      (ks, k) ∈ (a.chains h row).filter (·.2 = k) ↔ a.Chain row.key ks k := by
    simp [List.mem_filter, mem_chains h held]
  have hd := (nodup_chains h held).filter (·.2 = k)
  have he : ∀ x ∈ (a.chains h row).filter (·.2 = k), x.2 = k := fun x hx =>
    of_decide_eq_true (List.mem_filter.mp hx).2
  rw [hc]
  generalize (a.chains h row).filter (·.2 = k) = l at hm hd he ⊢
  constructor
  case mp =>
    intro hl ks ks' hk hk'
    rw [← hm] at hk hk'
    cases l
    case nil      => cases hk
    case cons x l =>
      cases List.length_eq_zero_iff.mp (Nat.le_zero.mp (Nat.le_of_succ_le_succ hl))
      have e := (List.mem_singleton.mp hk).trans (List.mem_singleton.mp hk').symm
      exact (Prod.mk.inj e).1
  case mpr =>
    intro hu
    cases l
    case nil      => simp
    case cons x l =>
      cases l
      case nil      => simp
      case cons y l =>
        have hx := he x (by simp)
        have hy := he y (by simp)
        have e := hu x.1 y.1 (hm.mp (by simp [← hx])) (hm.mp (by simp [← hy]))
        have hxy : x = y := Prod.ext e (hx.trans hy.symm)
        simp [hxy] at hd

end Archive

variable {a : Archive} {root : Row}

-- A walk visits a row once for every chain that leads to it, and a row that gives a record gives one
-- every time. Without a table below two others, no row comes up twice.
theorem visits_by_chain (h : a.Sound) (held : a.Holds root) :
    (∃ chains : List (List Key × Key), chains.Nodup ∧
      (∀ ks k, (ks, k) ∈ chains ↔ a.Chain root.key ks k) ∧
      (a.visits h root []).map (·.row.key) = chains.map (·.2)) ∧
    (∀ k, ((a.visits h root []).map (·.row.key)).count k ≤ 1 ↔
      ∀ ks ks', a.Chain root.key ks k → a.Chain root.key ks' k → ks = ks') ∧
    ((∀ t ∈ a.catalog.tables, t.directParents.length ≤ 1) →
      ((a.visits h root []).map (·.row.key)).Nodup) ∧
    flatten a root = .ok ((a.visits h root []).filterMap (·.record?)) := by
  have hc := Archive.count_visits_le_one_iff h held
  refine ⟨?_, hc, fun hp => ?_, flatten_eq h held⟩
  case refine_1 =>
    exact ⟨a.chains h root, Archive.nodup_chains h held, fun _ _ => Archive.mem_chains h held,
      Archive.keys_visits h held []⟩
  case refine_2 =>
    refine List.nodup_iff_count_le_one.mpr fun k => (hc k).mpr fun ks ks' hk hk' => ?_
    exact hk.unique h hp hk'

-- Wells of a run that belong both to a plate and to a batch of reagents.
namespace Reagents

def definition : CatalogDefinition where
  tables := [
    { name := "run", traversable := true },
    { name := "plate", traversable := true, columns := [{ id := "plateCode", output := .record }] },
    { name := "batch", traversable := true, columns := [{ id := "batchCode", output := .record }] },
    { name := "well", traversable := true, generatesRecord := true,
      columns := [{ id := "dye", output := .record }] }]
  relations := [
    { parent := "run", child := "plate" },
    { parent := "run", child := "batch" },
    { parent := "plate", child := "well" },
    { parent := "batch", child := "well" }]

def records : List (String × List Record) := [
  ("run", [{ id := ⟨1⟩ }]),
  ("plate", [{ id := ⟨1⟩, cells := [("plateCode", .plain "P"), ("runId", .plain "1")] }]),
  ("batch", [{ id := ⟨1⟩, cells := [("batchCode", .plain "B"), ("runId", .plain "1")] }]),
  ("well", [{ id := ⟨1⟩, cells := [
    ("dye", .plain "red"), ("plateId", .plain "1"), ("batchId", .plain "1")] }])]

def archive : Archive :=
  let catalog := (Catalog.build definition).toOption.getD ⟨[]⟩
  { catalog, store := (Store.ofTables catalog records).toOption.getD {} }

theorem sound : archive.Sound :=
  ⟨⟨definition, by decide⟩, by decide⟩

def run : Row :=
  (archive.store.rows "run").head (by decide)

def plate : Row :=
  (archive.store.rows "plate").head (by decide)

def batch : Row :=
  (archive.store.rows "batch").head (by decide)

def well : Row :=
  (archive.store.rows "well").head (by decide)

theorem leads {row : Row} {k : Key} (held : archive.Holds row)
    (h : k ∈ (archive.below row).map Row.key) : archive.Leads row.key k :=
  (Archive.mem_keys_below held).mp h

theorem well_by_plate : archive.Chain run.key [plate.key, well.key] well.key :=
  .cons (leads (by decide) (by decide)) (.cons (leads (by decide) (by decide)) .nil)

theorem well_by_batch : archive.Chain run.key [batch.key, well.key] well.key :=
  .cons (leads (by decide) (by decide)) (.cons (leads (by decide) (by decide)) .nil)

end Reagents

open Reagents in
theorem visits_by_chain_run :
    archive.Holds run ∧
    ∃ chains : List (List Key × Key), chains.Nodup ∧
      ([plate.key, well.key], well.key) ∈ chains ∧ ([batch.key, well.key], well.key) ∈ chains ∧
      (archive.visits sound run []).map (·.row.key) = chains.map (·.2) := by
  have held : archive.Holds run := by decide
  have ⟨⟨chains, hn, hm, hv⟩, _⟩ := visits_by_chain sound held
  exact ⟨held, chains, hn, (hm _ _).mpr well_by_plate, (hm _ _).mpr well_by_batch, hv⟩

-- The well of the run comes up below its plate and below its batch.
open Reagents in
theorem visits_repeat :
    ¬ ∀ (a : Archive) (root : Row) (h : a.Sound), a.Holds root →
      a.store.find? root.table.name root.id = some root →
      ((a.visits h root []).map (·.row.key)).Nodup := by
  intro h
  have held : archive.Holds run := by decide
  have hn := h archive run sound held rfl
  have hc := List.nodup_iff_count_le_one.mp hn well.key
  have he := (Archive.count_visits_le_one_iff sound held well.key).mp hc _ _ well_by_plate
    well_by_batch
  exact absurd he (by decide)

end ReportExchange
