import ReportExchange.Proofs.Ancestor.Fetched
import ReportExchange.Proofs.Formula.Cells
import ReportExchange.Proofs.Report.Chains
import ReportExchange.Proofs.Report.Children
import ReportExchange.Proofs.Store.Counter

namespace ReportExchange

-- A data file is loaded by adding its rows.
theorem Store.exists_history_of_ofTables {c : Catalog} {tables : List (String × List Record)}
    {s : Store} (h : ofTables c tables = .ok s) : ∃ seen, History seen s := by
  refine foldlM_inv (fun s => ∃ seen, History seen s) (fun entry _ s s' hr hs => ?_) h ⟨[], .empty⟩
  change addTable c s entry.1 entry.2 = .ok s' at hr
  rw [addTable] at hr
  cases ht : c.table entry.1 <;> rw [ht] at hr
  case error => cases hr
  case ok t =>
    refine foldlM_inv (fun s => ∃ seen, History seen s) (fun record _ s s' hr hs => ?_) hr hs
    obtain ⟨row, id, _, ha⟩ := addRecord_eq_ok_iff.mp hr
    obtain ⟨seen, hs⟩ := hs
    exact ⟨_, hs.add row ha⟩

-- The row says by one of its keys that it is directly below the place.
def Row.Under (row : Row) (k : Key) : Prop :=
  ∃ r ∈ row.table.directParents, r.parent = k.1 ∧ row.parentId r.parent = some k.2

namespace Archive

variable {a : Archive} {row : Row} {k l m up : Key} {ks : List Key}

def Stores (a : Archive) (k : Key) : Prop :=
  (a.store.find? k.1 k.2).isSome

instance (a : Archive) (k : Key) : Decidable (a.Stores k) :=
  inferInstanceAs (Decidable (_ = _))

-- The row that is stored at the first place is directly below the second.
def Under (a : Archive) (k l : Key) : Prop :=
  ∃ s, a.store.find? k.1 k.2 = some s ∧ s.Under l

-- The second place is an ancestor of the first, at any distance but none.
def Ancestor (a : Archive) : Key → Key → Prop :=
  Relation.TransGen a.Under

-- Every row is below one row at most, which is stored, and no formula decides which one that is.
structure Forest (a : Archive) : Prop where
  sound  : a.Sound
  made   : ∃ seen, Store.History seen a.store
  single : ∀ t ∈ a.catalog.tables, t.directParents.length ≤ 1
  keys   : ∀ t ∈ a.catalog.tables, ∀ r ∈ t.directParents, t.formula? ⟨r.foreignKey, .code⟩ = none
  closed : ∀ shelf ∈ a.store.shelves, ∀ s ∈ shelf.rows, ∀ r ∈ s.table.directParents,
    ∀ id ∈ s.parentId r.parent, a.Stores (r.parent, id)

theorem key_of_find? {s : Row} (h : a.store.find? k.1 k.2 = some s) : s.key = k :=
  Prod.ext (Store.table_of_mem_rows (List.mem_of_find?_eq_some h)) (Store.id_of_find? h)

theorem stores_of_leads (h : a.Leads k l) : a.Stores l := by
  obtain ⟨_, _, _, s, _, _, _, _, hs, rfl⟩ := h
  have hrow := Store.mem_rows_of_mem_childrenOf hs
  have hn := Store.table_of_mem_rows hrow
  simp [Stores, Row.key, hn, Store.find?_eq_some_of_mem hrow]

theorem mem_keys_visits (h : a.Sound) (held : a.Holds row) (inherited : Fields) :
    k ∈ (a.visits h row inherited).map (·.row.key) ↔ ∃ ks, a.Chain row.key ks k := by
  rw [keys_visits h held]
  simp only [List.mem_map, Prod.exists, exists_eq_right, mem_chains h held]

namespace Forest

variable (F : a.Forest)

include F

theorem isSet (h : a.Stores k) : k.2.isSet := by
  obtain ⟨seen, hm⟩ := F.made
  obtain ⟨s, hs⟩ := Option.isSome_iff_exists.mp h
  have hid := hm.counts.stored k.1 s (List.mem_of_find?_eq_some hs)
  rw [Store.id_of_find? hs] at hid
  exact Store.isSet_of_history hm _ hid

theorem under_unique_of_row (held : a.Holds row) (hk : row.Under k) (hl : row.Under l) :
    k = l := by
  obtain ⟨r, hr, hp, hi⟩ := hk
  obtain ⟨r', hr', hp', hi'⟩ := hl
  cases Table.directParent_unique (F.single _ held.mem) hr hr'
  exact Prod.ext (hp.symm.trans hp') (Option.some.inj (hi.symm.trans hi'))

theorem under_unique (hl : a.Under k l) (hm : a.Under k m) : l = m := by
  obtain ⟨s, hs, hl⟩ := hl
  obtain ⟨s', hs', hm⟩ := hm
  cases hs.symm.trans hs'
  exact F.under_unique_of_row (F.sound.holds_of_find? hs) hl hm

-- The relations up from a table lead to higher ones.
theorem height_under (h : a.Under k l) : F.sound.height k.1 < F.sound.height l.1 := by
  obtain ⟨s, hs, r, hr, hp, _⟩ := h
  have ⟨d, hb⟩ := F.sound.built
  obtain ⟨hc, up, hu, hn, hm⟩ :=
    Catalog.exists_parent_of_build hb (F.sound.holds_of_find? hs).mem hr
  have hh := (Classical.choose_spec F.sound.catalog.layered up hu).2 r hm
  have hk : s.table.name = k.1 := congrArg Prod.fst (key_of_find? hs)
  rw [hc, hn, hp, hk] at hh
  exact hh

theorem height_ancestor (h : a.Ancestor k l) : F.sound.height k.1 < F.sound.height l.1 := by
  induction h
  case single h    => exact F.height_under h
  case tail _ h hi => exact Nat.lt_trans hi (F.height_under h)

theorem stores_of_under (h : a.Under k l) : a.Stores l := by
  obtain ⟨s, hs, r, hr, hp, hi⟩ := h
  have hm := List.mem_of_find?_eq_some hs
  rw [Store.rows] at hm
  split at hm
  case h_2 => cases hm
  case h_1 shelf hf =>
    have hc := F.closed shelf (List.mem_of_find?_eq_some hf) s hm r hr l.2 hi
    rwa [hp] at hc

theorem stores_of_ancestor (h : a.Ancestor k l) : a.Stores l := by
  cases h
  case single h => exact F.stores_of_under h
  case tail h   => exact F.stores_of_under h

-- The ancestors of a row are all of different tables.
theorem lineage (k : Key) : Lineage a (a.Ancestor k) where
  single l m hl hm e := by
    have hlt {l m : Key} (hl : a.Ancestor l m) : l.1 ≠ m.1 := fun e =>
      Nat.lt_irrefl _ (e ▸ F.height_ancestor hl)
    have hu : Relator.RightUnique a.Under := fun _ _ _ => F.under_unique
    -- Of two ancestors one is the other's, as the way up does not fork.
    cases Relation.ReflTransGen.total_of_right_unique hu hl.to_reflTransGen hm.to_reflTransGen
    case inl h =>
      obtain e' | h := Relation.reflTransGen_iff_eq_or_transGen.mp h
      case inl => exact e'.symm
      case inr => exact absurd e (hlt h)
    case inr h =>
      obtain e' | h := Relation.reflTransGen_iff_eq_or_transGen.mp h
      case inl => exact e'
      case inr => exact absurd e.symm (hlt h)
  stored l hl := by
    obtain ⟨s, hs⟩ := Option.isSome_iff_exists.mp (F.stores_of_ancestor hl)
    have held := F.sound.holds_of_find? hs
    have hn : s.table.name = l.1 := congrArg Prod.fst (key_of_find? hs)
    rw [Holds, hn] at held
    exact ⟨s, Archive.parent_eq_ok_iff.mpr ⟨by simp [Catalog.Knows, held], hs⟩⟩

-- What a row leads down to is directly below it.
theorem under_of_leads (hk : a.Stores k) (h : a.Leads k l) : a.Under l k := by
  obtain ⟨child, hm, hn, r, hr, hp, s, hs, hi, hc⟩ := F.sound.parent_of_leads h
  have held := F.sound.holds_of_mem hs
  have ht : s.table = child := by
    have hf := F.sound.catalog.found child hm
    rw [hn, ← Store.table_of_mem_rows hs, held] at hf
    exact Option.some.inj hf
  refine ⟨s, hi ▸ Store.find?_eq_some_of_mem hs, r, ht ▸ hr, hp, ?_⟩
  exact ((Row.trim_code_eq_iff (F.isSet hk)).mp hc).1

theorem ancestor_of_leads_iff (hk : a.Stores k) (h : a.Leads k l) :
    a.Ancestor l up ↔ up = k ∨ a.Ancestor k up := by
  have hu := F.under_of_leads hk h
  rw [Ancestor, Relation.TransGen.head'_iff, ← Relation.reflTransGen_iff_eq_or_transGen]
  constructor
  case mp =>
    rintro ⟨m, hm, hup⟩
    exact F.under_unique hm hu ▸ hup
  case mpr => exact fun hup => ⟨k, hu, hup⟩

-- What is above the first row of a chain is above its last.
theorem ancestor_of_chain (hk : a.Stores k) (hc : a.Chain k ks m) (h : a.Ancestor k up) :
    a.Ancestor m up := by
  induction hc with
  | nil => exact h
  | cons hl _ hi => exact hi (stores_of_leads hl) ((F.ancestor_of_leads_iff hk hl).mpr (.inr h))

-- What is above the last row of a chain is above its first or on the chain itself.
theorem ancestor_or_chain (hk : a.Stores k) (hc : a.Chain k ks m) (h : a.Ancestor m up) :
    a.Ancestor k up ∨ ∃ ks', a.Chain k ks' up := by
  induction hc with
  | nil => exact .inl h
  | cons hl _ hi =>
    obtain h | ⟨ks', hc⟩ := hi (stores_of_leads hl) h
    case inr => exact .inr ⟨_, .cons hl hc⟩
    case inl =>
      obtain rfl | h := (F.ancestor_of_leads_iff hk hl).mp h
      case inl => exact .inr ⟨[], .nil⟩
      case inr => exact .inl h

-- What is above rows below two different children of a row is the row itself or above it.
theorem ancestor_of_fork {c c' : Key} {ks' : List Key} (hk : a.Stores k) (hc : a.Leads k c)
    (hc' : a.Leads k c') (hne : c ≠ c') (hl : a.Chain c ks l) (hm : a.Chain c' ks' m)
    (hul : a.Ancestor l up) (hum : a.Ancestor m up) : up = k ∨ a.Ancestor k up := by
  obtain h | ⟨_, hl⟩ := F.ancestor_or_chain (stores_of_leads hc) hl hul
  case inl => exact (F.ancestor_of_leads_iff hk hc).mp h
  case inr =>
    obtain h | ⟨_, hm⟩ := F.ancestor_or_chain (stores_of_leads hc') hm hum
    case inl => exact (F.ancestor_of_leads_iff hk hc').mp h
    case inr =>
      -- There is one way down to a row, and it goes through one of the children.
      have e := Chain.unique F.sound F.single (.cons hc hl) (.cons hc' hm)
      exact absurd (List.cons.inj e).1 hne

end Forest

-- The rows below a common ancestor of the first row come without any other row between them, and so
-- on for the rows after it.
inductive Contiguous (a : Archive) : List Key → Prop
  | nil : Contiguous a []
  | cons {k : Key} {ks : List Key} :
    (∀ up, a.Ancestor k up → ks.Pairwise fun m l => a.Ancestor l up → a.Ancestor m up) →
    Contiguous a ks → Contiguous a (k :: ks)

-- Two parts are contiguous as a whole if what they have in common is above all of their rows.
theorem Contiguous.append {ls : List Key} (hk : a.Contiguous ks) (hl : a.Contiguous ls)
    (h : ∀ k ∈ ks, ∀ l ∈ ls, ∀ up, a.Ancestor k up → a.Ancestor l up →
      ∀ m ∈ ks ++ ls, a.Ancestor m up) : a.Contiguous (ks ++ ls) := by
  induction ks
  case nil => exact hl
  case cons k ks hi =>
    cases hk with | cons hp hk => ?_
    have hrest := hi hk fun k' hk' l hl' up hu hu' m hm =>
      h k' (List.mem_cons_of_mem _ hk') l hl' up hu hu' m (List.mem_cons_of_mem _ hm)
    refine .cons (fun up hu => ?_) hrest
    have shared : ∀ l ∈ ls, a.Ancestor l up → ∀ m ∈ ks ++ ls, a.Ancestor m up :=
      fun l hl' hu' m hm => h k List.mem_cons_self l hl' up hu hu' m (List.mem_cons_of_mem _ hm)
    refine List.pairwise_append.mpr ⟨hp up hu, ?_, ?_⟩
    case refine_1 =>
      refine List.pairwise_of_forall_mem_list fun m hm l hl' hu' => ?_
      exact shared l hl' hu' m (List.mem_append_right _ hm)
    case refine_2 => exact fun m hm l hl' hu' => shared l hl' hu' m (List.mem_append_left _ hm)

theorem contiguous_flatMap {α : Type} {cs : List α} {f : α → List Key} {P : Key → Prop}
    (each : ∀ c ∈ cs, a.Contiguous (f c))
    (above : ∀ c ∈ cs, ∀ m ∈ f c, ∀ up, P up → a.Ancestor m up)
    (fork : cs.Pairwise fun c d => ∀ k ∈ f c, ∀ l ∈ f d, ∀ up, a.Ancestor k up →
      a.Ancestor l up → P up) : a.Contiguous (cs.flatMap f) := by
  induction cs
  case nil => exact .nil
  case cons c cs hi =>
    obtain ⟨hc, fork⟩ := List.pairwise_cons.mp fork
    obtain ⟨hac, above⟩ := List.forall_mem_cons.mp above
    obtain ⟨hec, each⟩ := List.forall_mem_cons.mp each
    rw [List.flatMap_cons]
    refine hec.append (hi each above fork) fun k hk l hl up hu hu' m hm => ?_
    obtain ⟨d, hd, hl⟩ := List.mem_flatMap.mp hl
    have hP : P up := hc d hd k hk l hl up hu hu'
    obtain hm | hm := List.mem_append.mp hm
    case inl => exact hac m hm up hP
    case inr =>
      obtain ⟨e, he, hm⟩ := List.mem_flatMap.mp hm
      exact above e he m hm up hP

-- The visits to the rows below an ancestor make up one stretch.
theorem Forest.contiguous_visits (F : a.Forest) (held : a.Holds row) (hr : a.Stores row.key)
    (inherited : Fields) :
    a.Contiguous ((a.visits F.sound row inherited).map (·.row.key)) := by
  induction hn : F.sound.height row.table.name using Nat.strong_induction_on
    generalizing row inherited
  case _ n hi =>
    have below {c : Row} (hc : c ∈ a.below (a.resolved row).1) : a.Leads row.key c.key := by
      rw [← key_resolved, ← mem_keys_below held.resolved]
      exact List.mem_map_of_mem hc
    have hv := visits_eq F.sound held inherited
    have hall : ∀ m ∈ (a.visits F.sound row inherited).map (·.row.key), ∃ ks,
        a.Chain row.key ks m := fun m => (mem_keys_visits F.sound held inherited).mp
    rw [hv, List.map_cons, List.map_flatMap] at hall ⊢
    have hkey : (Visit.of a row inherited).row.key = row.key := key_resolved row
    refine .cons (fun up hu => ?_) ?_
    case refine_1 =>
      refine List.pairwise_of_forall_mem_list fun m hm _ _ _ => ?_
      obtain ⟨ks, hc⟩ := hall m (List.mem_cons_of_mem _ hm)
      exact F.ancestor_of_chain hr hc (hkey ▸ hu)
    case refine_2 =>
      refine contiguous_flatMap (P := fun up => up = row.key ∨ a.Ancestor row.key up)
        (fun c hc => ?_) (fun c hc m hm up hu => ?_) ?_
      case refine_1 =>
        have hl := F.sound.height_below held.resolved hc
        rw [(a.resolved_spares row).table, hn] at hl
        exact hi _ hl (F.sound.holds_below hc) (stores_of_leads (below hc)) _ rfl
      case refine_2 =>
        obtain ⟨ks, hm⟩ := (mem_keys_visits F.sound (F.sound.holds_below hc) _).mp hm
        refine F.ancestor_of_chain (stores_of_leads (below hc)) hm ?_
        exact (F.ancestor_of_leads_iff hr (below hc)).mpr hu
      case refine_3 =>
        have hd := List.pairwise_map.mp (F.sound.nodup_keys_below held.resolved)
        refine hd.imp_of_mem fun {c d} hc hd hne k hk l hl up hu hu' => ?_
        obtain ⟨_, hk⟩ := (mem_keys_visits F.sound (F.sound.holds_below hc) _).mp hk
        obtain ⟨_, hl⟩ := (mem_keys_visits F.sound (F.sound.holds_below hd) _).mp hl
        exact F.ancestor_of_fork hr (below hc) (below hd) hne hk hl hu hu'

end Archive

end ReportExchange
