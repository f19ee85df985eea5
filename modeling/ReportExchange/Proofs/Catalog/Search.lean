import Mathlib.Data.List.Basic
import ReportExchange.Proofs.Ancestor.Faithful
import ReportExchange.Proofs.Catalog.Ancestry

namespace ReportExchange.Catalog

variable {c : Catalog} {column : String} {t up start : Table} {seen seen' : List String}
variable {level level' : List Trail}

theorem Climbs.found {path : List Relation} (h : c.Climbs t path up)
    (ht : c.table? t.name = some t) : c.table? up.name = some up := by
  induction h
  case nil          => exact ht
  case cons hm _ hi => exact hi (name_of_table? hm ▸ hm)

-- What is known between two levels of a search that starts at a table: the other tables that it has
-- entered lack the column, and the parents of what it has entered have been entered as well, unless
-- the table is on the level itself.
structure Surveyed (c : Catalog) (start : Table) (column : String) (seen : List String)
    (level : List Trail) : Prop where
  lacks  : ∀ t, c.table? t.name = some t → t.name ∈ seen → t ≠ start → ¬ t.declares column
  closed : ∀ t, c.table? t.name = some t → t.name ∈ seen → (∃ trail ∈ level, trail.table = t) ∨
    ∀ r ∈ t.directParents, r.parent ∈ seen

-- What the steps out of a level have added to the tables that have been entered.
structure Extends (c : Catalog) (column : String) (steps : List (List Relation × Relation))
    (seen seen' : List String) (level level' : List Trail) : Prop where
  names   : seen ⊆ seen'
  trails  : level ⊆ level'
  entered : ∀ step ∈ steps, step.2.parent ∈ seen'
  added   : ∀ t, c.table? t.name = some t → t.name ∈ seen' →
    t.name ∈ seen ∨ ¬ t.declares column ∧ ∃ trail ∈ level', trail.table = t
  fresh   : ∀ trail ∈ level', trail ∈ level ∨
    trail.table ∈ c.tables ∧ trail.table.name ∉ seen ∧ trail.table.name ∈ seen'

namespace Extends

variable {steps : List (List Relation × Relation)} {path : List Relation} {r : Relation}

-- A name that stands for no table leaves nothing to go on with.
theorem miss (ht : c.table? r.parent = none)
    (e : Extends c column steps (r.parent :: seen) seen' level level') :
    Extends c column ((path, r) :: steps) seen seen' level level' where
  names   := List.Subset.trans (List.subset_cons_self _ _) e.names
  trails  := e.trails
  entered := List.forall_mem_cons.mpr ⟨e.names List.mem_cons_self, e.entered⟩
  added t hk hm := by
    refine (e.added t hk hm).imp_left fun hm => (List.mem_cons.mp hm).resolve_left fun he => ?_
    rw [← he, hk] at ht
    cases ht
  fresh trail hm := (e.fresh trail hm).imp_right fun ⟨h, hn, hs⟩ =>
    ⟨h, fun hm => hn (List.mem_cons_of_mem _ hm), hs⟩

theorem enter {top : Table} (hr : r.parent ∉ seen) (ht : c.table? r.parent = some top)
    (hd : ¬ top.declares column)
    (e : Extends c column steps (r.parent :: seen) seen' (level ++ [⟨top, path ++ [r]⟩]) level') :
    Extends c column ((path, r) :: steps) seen seen' level level' where
  names   := List.Subset.trans (List.subset_cons_self _ _) e.names
  trails  := List.Subset.trans (List.subset_append_left _ _) e.trails
  entered := List.forall_mem_cons.mpr ⟨e.names List.mem_cons_self, e.entered⟩
  added t hk hm := by
    cases e.added t hk hm
    case inr h  => exact .inr h
    case inl hm =>
      cases List.mem_cons.mp hm
      case inr hm => exact .inl hm
      case inl he =>
        rw [he, ht] at hk
        cases hk
        exact .inr ⟨hd, ⟨top, path ++ [r]⟩, e.trails (by simp), rfl⟩
  fresh trail hm := by
    cases e.fresh trail hm
    case inr h  => exact .inr ⟨h.1, fun hm => h.2.1 (List.mem_cons_of_mem _ hm), h.2.2⟩
    case inl hm =>
      cases List.mem_append.mp hm
      case inl hm => exact .inl hm
      case inr hm =>
        have hn := name_of_table? ht
        cases List.mem_singleton.mp hm
        refine .inr ⟨List.mem_of_find?_eq_some ht, hn ▸ hr, e.names ?_⟩
        exact hn ▸ List.mem_cons_self

end Extends

theorem extends_survey {steps : List (List Relation × Relation)}
    (h : survey c column seen level steps = .beyond seen' level') :
    Extends c column steps seen seen' level level' := by
  induction steps generalizing seen level
  case nil =>
    cases h
    exact ⟨List.Subset.refl _, List.Subset.refl _, by simp, fun _ _ => .inl, fun _ => .inl⟩
  case cons step steps hi =>
    obtain ⟨path, r⟩ := step
    rw [survey] at h
    split at h
    case isTrue hr =>
      have e := hi h
      exact { e with entered := List.forall_mem_cons.mpr ⟨e.names hr, e.entered⟩ }
    case isFalse hr =>
      split at h
      case h_1 ht => exact .miss ht (hi h)
      case h_2 ht =>
        split at h
        case isTrue     => cases h
        case isFalse hd => exact .enter hr ht hd (hi h)

-- The tables that the search has not entered yet. On every level there are fewer of them.
def unseen (c : Catalog) (seen : List String) : List Table :=
  c.tables.filter (·.name ∉ seen)

theorem length_unseen_lt (hs : seen ⊆ seen') (ht : t ∈ c.tables) (hn : t.name ∉ seen)
    (hm : t.name ∈ seen') : (c.unseen seen').length < (c.unseen seen).length := by
  have hsub : (c.unseen seen').Sublist (c.unseen seen) := by
    refine List.monotone_filter_right _ fun u hu => ?_
    exact decide_eq_true fun hu' => of_decide_eq_true hu (hs hu')
  refine Nat.lt_of_le_of_ne hsub.length_le fun e => ?_
  have hin : t ∈ c.unseen seen := List.mem_filter.mpr ⟨ht, decide_eq_true hn⟩
  rw [← hsub.eq_of_length e] at hin
  exact of_decide_eq_true (List.mem_filter.mp hin).2 hm

namespace Surveyed

theorem init (hk : c.table? start.name = some start) :
    Surveyed c start column [start.name] [⟨start, []⟩] := by
  have eq_start (u : Table) (hu : c.table? u.name = some u) (hm : u.name ∈ [start.name]) :
      u = start := by
    rw [List.mem_singleton.mp hm, hk] at hu
    exact (Option.some.inj hu).symm
  refine ⟨fun u hu hm hne => absurd (eq_start u hu hm) hne, fun u hu hm => .inl ?_⟩
  exact ⟨_, List.mem_singleton_self _, (eq_start u hu hm).symm⟩

-- One level further up, the parents of all that had been entered have been entered, too.
theorem parent_mem (h : Surveyed c start column seen level)
    (e : Extends c column (stepsFrom level) seen seen' [] level') (hk : c.table? t.name = some t)
    (hm : t.name ∈ seen) {r : Relation} (hr : r ∈ t.directParents) : r.parent ∈ seen' := by
  cases h.closed t hk hm
  case inr hc => exact e.names (hc r hr)
  case inl hl =>
    obtain ⟨trail, hl, rfl⟩ := hl
    refine e.entered (trail.path, r) (List.mem_flatMap.mpr ⟨trail, hl, ?_⟩)
    exact List.mem_map.mpr ⟨r, hr, rfl⟩

theorem advance (h : Surveyed c start column seen level)
    (e : Extends c column (stepsFrom level) seen seen' [] level') :
    Surveyed c start column seen' level' where
  lacks t hk hm hne := by
    cases e.added t hk hm
    case inl hm => exact h.lacks t hk hm hne
    case inr hn => exact hn.1
  closed t hk hm := by
    cases e.added t hk hm
    case inr hn => exact .inl hn.2
    case inl hm => exact .inr fun r hr => h.parent_mem e hk hm hr

-- Once no level is left, nothing above what has been entered is left out.
theorem not_declares (h : Surveyed c start column seen []) {path : List Relation}
    (hc : c.Climbs t path up) (hk : c.table? t.name = some t) (hm : t.name ∈ seen)
    (hne : up ≠ start) : ¬ up.declares column := by
  induction hc
  case nil => exact h.lacks _ hk hm hne
  case cons r _ hr ht _ hi =>
    have hn := name_of_table? ht
    obtain ⟨_, hl, _⟩ | hclosed := h.closed _ hk hm
    · cases hl
    · exact hi (hn.symm ▸ ht) (hn.symm ▸ hclosed r hr) hne

end Surveyed

theorem surveyed_of_climb_none {fuel : Nat} (h : Surveyed c start column seen level)
    (hf : (c.unseen seen).length < fuel) (hn : climb c column fuel seen level = none) :
    ∃ all, seen ⊆ all ∧ Surveyed c start column all [] := by
  induction fuel generalizing seen level
  case zero => exact absurd hf (Nat.not_lt_zero _)
  case succ fuel hi =>
    rw [climb] at hn
    split at hn
    case h_1 => cases hn
    case h_2 all hs =>
      have e := extends_survey hs
      exact ⟨all, e.names, h.advance e⟩
    case h_3 next above hne hs =>
      have e := extends_survey hs
      obtain ⟨trail, ht⟩ := List.exists_mem_of_ne_nil above hne
      obtain ⟨htab, hnew, hin⟩ := (e.fresh trail ht).resolve_left List.not_mem_nil
      have hlt := length_unseen_lt e.names htab hnew hin
      obtain ⟨all, hall, hs⟩ := hi (h.advance e) (by omega) hn
      exact ⟨all, List.Subset.trans e.names hall, hs⟩

-- If the search finds nothing, then no other table above the one that it starts at declares the
-- column.
theorem not_declares_above (hk : c.table? t.name = some t)
    (h : c.pathToAncestor t.name column = none) {path : List Relation} (hc : c.Climbs t path up)
    (hne : up ≠ t) : ¬ up.declares column := by
  rw [pathToAncestor, hk] at h
  have hf : (c.unseen [t.name]).length < c.tables.length + 1 :=
    Nat.lt_succ_of_le (List.length_filter_le _ _)
  obtain ⟨all, hall, hs⟩ := surveyed_of_climb_none (.init hk) hf h
  exact hs.not_declares hc hk (hall (List.mem_singleton_self _)) hne

theorem not_declares_of_pathToAncestor_none (hk : c.table? t.name = some t)
    (hd : ¬ t.declares column) (h : c.pathToAncestor t.name column = none) {path : List Relation}
    (hc : c.Climbs t path up) : ¬ up.declares column := by
  by_cases hne : up = t
  case pos => exact hne ▸ hd
  case neg => exact not_declares_above hk h hc hne

end ReportExchange.Catalog
