import Mathlib.Data.List.Basic
import ReportExchange.Proofs.Catalog.Build
import ReportExchange.Proofs.Catalog.Search

namespace ReportExchange

-- A chain of direct relations up from one table to another. Each of them is one from the table that
-- the one before it has led to.
inductive Ascends (relations : List Relation) : String → List Relation → String → Prop
  | nil {name : String} : Ascends relations name [] name
  | cons {r : Relation} {path : List Relation} {top : String} :
    r ∈ relations → r.direct → Ascends relations r.parent path top →
    Ascends relations r.child (r :: path) top

-- A table between is the end of a shorter chain.
theorem Ascends.exists_shorter {relations : List Relation} {name top : String}
    {path : List Relation} {r : Relation} (h : Ascends relations name path top)
    (hr : r ∈ path.dropLast) :
    ∃ part, part ≠ [] ∧ Ascends relations name part r.parent ∧ part.length < path.length := by
  induction h
  case nil => cases hr
  case cons first path _ hf hd _ hi =>
    cases path
    case nil => cases hr
    case cons =>
      rw [List.dropLast_cons_cons] at hr
      cases List.mem_cons.mp hr
      case inl e =>
        subst e
        exact ⟨[r], by simp, .cons hf hd .nil, by simp⟩
      case inr hr =>
        have ⟨part, _, ha, hl⟩ := hi hr
        exact ⟨first :: part, by simp, .cons hf hd ha, Nat.succ_lt_succ hl⟩

namespace Catalog

variable {d : CatalogDefinition} {c : Catalog} {column start top : String} {t up : Table}
variable {seen seen' : List String} {level level' : List Trail} {path other : List Relation}
variable {r : Relation} {n : Nat}

-- The catalog's table of the name declares the column.
def Declares (c : Catalog) (table column : String) : Prop :=
  ∃ t, c.table? table = some t ∧ t.declares column

-- A chain of direct relations to an ancestor that declares a column, with none that declares it on
-- the way, and no chain to such an ancestor that is shorter. A chain of no relations leads to no
-- ancestor.
structure IsNearest (c : Catalog) (relations : List Relation) (start column : String)
    (path : List Relation) : Prop where
  nonempty : path ≠ []
  leads    : ∃ top, Ascends relations start path top ∧ c.Declares top column
  between  : ∀ r ∈ path.dropLast, ¬ c.Declares r.parent column
  shortest : ∀ other top, other ≠ [] → Ascends relations start other top → c.Declares top column →
    path.length ≤ other.length

theorem mem_directParents_iff (hb : build d = .ok c) (ht : t ∈ c.tables) :
    r ∈ t.directParents ↔ r ∈ d.relations ∧ r.direct ∧ r.child = t.name := by
  rw [Table.directParents, parents_of_build hb ht]
  simp [and_comm]

namespace Climbs

-- A chain of relations by which the tables of a catalog climb is one of its definition.
theorem ascends (hb : build d = .ok c) (h : c.Climbs t path up) (ht : t ∈ c.tables) :
    Ascends d.relations t.name path up.name := by
  induction h
  case nil => exact .nil
  case cons hr hm _ hi =>
    have ⟨hr, hd, e⟩ := (mem_directParents_iff hb ht).mp hr
    have hi := hi (List.mem_of_find?_eq_some hm)
    rw [name_of_table? hm] at hi
    exact e ▸ .cons hr hd hi

theorem of_ascends (hb : build d = .ok c) (h : Ascends d.relations start path top)
    (ht : c.table? start = some t) : ∃ up, c.Climbs t path up ∧ c.table? top = some up := by
  induction h generalizing t
  case nil => exact ⟨t, .nil, ht⟩
  case cons r _ _ hr hd _ hi =>
    have hmem := List.mem_of_find?_eq_some ht
    have hm : r ∈ t.directParents :=
      (mem_directParents_iff hb hmem).mpr ⟨hr, hd, (name_of_table? ht).symm⟩
    have ⟨_, mid, hmid, hn, _⟩ := exists_parent_of_build hb hmem hm
    have hp : c.table? r.parent = some mid := hn ▸ (sound_of_build hb).found mid hmid
    have ⟨up, hc, hu⟩ := hi hp
    exact ⟨up, .cons hm hp hc, hu⟩

theorem exists_last (h : c.Climbs t (path ++ [r]) up) :
    ∃ mid, c.Climbs t path mid ∧ r ∈ mid.directParents ∧ c.table? r.parent = some up := by
  induction path generalizing t
  case nil =>
    cases h with | cons hr hm h => ?_
    cases h
    exact ⟨t, .nil, hr, hm⟩
  case cons hi =>
    cases h with | cons hr hm h => ?_
    have ⟨mid, hc, hl⟩ := hi h
    exact ⟨mid, .cons hr hm hc, hl⟩

-- Each relation leads further up, so none leads back.
theorem ne (hb : build d = .ok c) (h : c.Climbs t path up) (ht : t ∈ c.tables) (hn : path ≠ []) :
    up ≠ t := by
  have ⟨height, hh⟩ := (sound_of_build hb).layered
  have hle : height t.name + path.length ≤ height up.name := by
    clear hn
    induction h
    case nil => exact Nat.le_refl _
    case cons r _ hr hm _ hi =>
      have ⟨hc, above, ha, hn, hd⟩ := exists_parent_of_build hb ht hr
      have hlt := (hh above ha).2 r hd
      have hi := hi (List.mem_of_find?_eq_some hm)
      rw [hc, hn] at hlt
      rw [name_of_table? hm] at hi
      rw [List.length_cons]
      omega
  have hpos := List.length_pos_of_ne_nil hn
  rintro rfl
  omega

end Climbs

-- The ways that lead out of a level are longer by one than those that lead to it.
def Outlook.Deep (n : Nat) : Outlook → Prop
  | .found path     => path.length = n
  | .beyond _ level => ∀ trail ∈ level, trail.path.length = n

theorem deep_survey {steps : List (List Relation × Relation)}
    (hs : ∀ step ∈ steps, step.1.length + 1 = n) (hl : ∀ trail ∈ level, trail.path.length = n) :
    (survey c column seen level steps).Deep n := by
  induction steps generalizing seen level
  case nil => exact hl
  case cons step steps hi =>
    obtain ⟨path, r⟩ := step
    obtain ⟨hp, hs⟩ := List.forall_mem_cons.mp hs
    rw [survey]
    split
    case isTrue  => exact hi hs hl
    case isFalse =>
      split
      case h_1     => exact hi hs hl
      case h_2 top =>
        split
        case isTrue  => simpa [Outlook.Deep] using hp
        case isFalse =>
          refine hi hs fun trail ht => ?_
          cases List.mem_append.mp ht
          case inl ht => exact hl trail ht
          case inr ht =>
            cases List.mem_singleton.mp ht
            simpa using hp

-- All tables that can be reached by so many relations have been entered.
def Covers (c : Catalog) (start : Table) (n : Nat) (seen : List String) : Prop :=
  ∀ path up, c.Climbs start path up → path.length ≤ n → up.name ∈ seen

theorem Covers.advance (h : c.Covers t n seen) (ht : c.table? t.name = some t)
    (hs : Surveyed c t column seen level)
    (e : Extends c column (stepsFrom level) seen seen' [] level') : c.Covers t (n + 1) seen' := by
  intro path up hc hl
  obtain rfl | ⟨path, r, rfl⟩ := path.eq_nil_or_concat'
  case inl => exact e.names (h [] up hc (Nat.zero_le n))
  case inr =>
    have ⟨mid, hm, hr, hu⟩ := hc.exists_last
    have hseen : mid.name ∈ seen := h path mid hm (by simpa using hl)
    exact name_of_table? hu ▸ hs.parent_mem e (hm.found ht) hseen hr

-- What is found on a level is as far away as the level, and what is nearer has been looked at.
theorem length_le_of_climb {fuel : Nat} (ht : c.table? t.name = some t)
    (hs : Surveyed c t column seen level) (hd : ∀ trail ∈ level, trail.path.length = n)
    (hn : c.Covers t n seen) (h : climb c column fuel seen level = some path)
    (hc : c.Climbs t other up) (hne : up ≠ t) (hu : up.declares column) :
    path.length ≤ other.length := by
  induction fuel generalizing seen level n
  case zero => cases h
  case succ fuel hi =>
    have deep : (survey c column seen [] (stepsFrom level)).Deep (n + 1) := by
      refine deep_survey (fun step hm => ?_) (by simp)
      obtain ⟨trail, hl, hm⟩ := List.mem_flatMap.mp hm
      obtain ⟨r, _, rfl⟩ := List.mem_map.mp hm
      simpa using hd trail hl
    rw [climb] at h
    split at h
    case h_2 => cases h
    case h_1 found e =>
      cases h
      rw [e] at deep
      have hlt : n < other.length := by
        by_contra hle
        have hm : up.name ∈ seen := hn other up hc (Nat.le_of_not_lt hle)
        exact hs.lacks up (hc.found ht) hm hne hu
      exact Nat.le_trans (Nat.le_of_eq deep) hlt
    case h_3 e =>
      rw [e] at deep
      have he := extends_survey e
      exact hi (hs.advance he) deep (hn.advance ht hs he) h

theorem length_le_of_pathToAncestor (ht : c.table? t.name = some t)
    (h : c.pathToAncestor t.name column = some path) (hc : c.Climbs t other up) (hne : up ≠ t)
    (hu : up.declares column) : path.length ≤ other.length := by
  rw [pathToAncestor, ht] at h
  have hn : c.Covers t 0 [t.name] := by
    intro path up hc hl
    cases List.length_eq_zero_iff.mp (Nat.le_zero.mp hl)
    cases hc
    exact List.mem_singleton_self _
  exact length_le_of_climb ht (.init ht) (by simp) hn h hc hne hu

-- An ancestor that declares a column is another table, and it is climbed to.
theorem exists_climbs_of_declares (hb : build d = .ok c) (ht : c.table? t.name = some t)
    (hn : path ≠ []) (ha : Ascends d.relations t.name path top) (hd : c.Declares top column) :
    ∃ up, c.Climbs t path up ∧ up ≠ t ∧ up.declares column := by
  obtain ⟨up, hu, hd⟩ := hd
  have ⟨up', hc, hu'⟩ := Climbs.of_ascends hb ha ht
  cases hu.symm.trans hu'
  exact ⟨up, hc, hc.ne hb (List.mem_of_find?_eq_some ht) hn, hd⟩

theorem isNearest_of_pathToAncestor (hb : build d = .ok c) (ht : c.table? t.name = some t)
    (h : c.pathToAncestor t.name column = some path) :
    c.IsNearest d.relations t.name column path := by
  have ⟨up, hc, hn, hu⟩ := climbs_of_pathToAncestor ht h
  have ha := hc.ascends hb (List.mem_of_find?_eq_some ht)
  have shortest (other : List Relation) (top : String) (hn : other ≠ [])
      (ha : Ascends d.relations t.name other top) (hd : c.Declares top column) :
      path.length ≤ other.length := by
    have ⟨_, hc, hne, hu⟩ := exists_climbs_of_declares hb ht hn ha hd
    exact length_le_of_pathToAncestor ht h hc hne hu
  refine ⟨hn, ⟨up.name, ha, up, hc.found ht, hu⟩, fun r hr hd => ?_, shortest⟩
  have ⟨part, hn, ha, hl⟩ := ha.exists_shorter hr
  exact Nat.not_le_of_lt hl (shortest part r.parent hn ha hd)

-- The search finds nothing exactly if no ancestor declares the column, and else a nearest one that
-- does.
theorem pathToAncestor_nearest (hb : build d = .ok c) (hk : c.Knows start) (column : String) :
    (c.pathToAncestor start column = none ↔
      ∀ path top, path ≠ [] → Ascends d.relations start path top → ¬ c.Declares top column) ∧
    ∀ path, c.pathToAncestor start column = some path →
      c.IsNearest d.relations start column path := by
  obtain ⟨t, ht⟩ := Option.isSome_iff_exists.mp hk
  obtain rfl := name_of_table? ht
  refine ⟨⟨fun h path top hn ha hd => ?_, fun h => ?_⟩,
    fun path => isNearest_of_pathToAncestor hb ht⟩
  case refine_1 =>
    have ⟨up, hc, hne, hu⟩ := exists_climbs_of_declares hb ht hn ha hd
    exact not_declares_above ht h hc hne hu
  case refine_2 =>
    by_contra hn
    have ⟨path, hp⟩ := Option.ne_none_iff_exists'.mp hn
    have hi := isNearest_of_pathToAncestor hb ht hp
    have ⟨top, ha, hd⟩ := hi.leads
    exact h path top hi.nonempty ha hd

-- Aliquots are taken from samples and filled in batches. The country of the study is nearer by way
-- of the batch, and the aliquots' own column of the name does not count.
namespace Aliquots

def definition : CatalogDefinition where
  tables    := [
    { name := "study", columns := [{ id := "country" }] }, { name := "site" }, { name := "sample" },
    { name := "batch" }, { name := "aliquot", columns := [{ id := "country" }, { id := "dye" }] }]
  relations := [
    { parent := "study", child := "site" }, { parent := "site", child := "sample" },
    { parent := "sample", child := "aliquot" }, { parent := "study", child := "batch" },
    { parent := "study", child := "aliquot", direct := false },
    { parent := "batch", child := "aliquot" }]

def catalog : Catalog :=
  (build definition).toOption.getD ⟨[]⟩

end Aliquots

open Aliquots in
theorem pathToAncestor_nearest_aliquots :
    build definition = .ok catalog ∧ catalog.Knows "aliquot" ∧
    catalog.IsNearest definition.relations "aliquot" "country"
      [{ parent := "batch", child := "aliquot" }, { parent := "study", child := "batch" }] ∧
    ∀ path top, path ≠ [] → Ascends definition.relations "aliquot" path top →
      ¬ catalog.Declares top "dye" := by
  have hb : build definition = .ok catalog := by decide
  have hk : catalog.Knows "aliquot" := by decide
  refine ⟨hb, hk, (pathToAncestor_nearest hb hk "country").2 _ (by decide), ?_⟩
  exact (pathToAncestor_nearest hb hk "dye").1.mp (by decide)

end Catalog

end ReportExchange
