import ReportExchange.Catalog.Ancestry

namespace ReportExchange.Catalog

-- A way up from a table to another, the lowest relation first.
inductive Climbs (c : Catalog) : Table → List Relation → Table → Prop
  | nil {t : Table} : Climbs c t [] t
  | cons {t mid up : Table} {r : Relation} {path : List Relation} :
    r ∈ t.directParents → c.table? r.parent = some mid → Climbs c mid path up →
    Climbs c t (r :: path) up

namespace Climbs

variable {c : Catalog} {t mid up : Table} {r : Relation} {path : List Relation}

theorem snoc (h : Climbs c t path mid) (hr : r ∈ mid.directParents)
    (hu : c.table? r.parent = some up) : Climbs c t (path ++ [r]) up := by
  induction h
  case nil             => exact .cons hr hu .nil
  case cons hs hm _ hi => exact .cons hs hm (hi hr)

end Climbs

variable {c : Catalog} {column : String} {t : Table}

-- The search goes on from trails that climb from where it has started.
def Trail.Climbs (c : Catalog) (t : Table) (trail : Trail) : Prop :=
  c.Climbs t trail.path trail.table

-- What is known of an outlook: the way that it has found leads to the column, and the level above
-- consists of trails.
def Outlook.Climbs (c : Catalog) (column : String) (t : Table) : Outlook → Prop
  | .found path     => ∃ up, c.Climbs t path up ∧ path ≠ [] ∧ up.declares column
  | .beyond _ level => ∀ trail ∈ level, trail.Climbs c t

theorem survey_climbs {seen : List String} {level : List Trail}
    {steps : List (List Relation × Relation)}
    (hs : ∀ step ∈ steps, ∃ mid, c.Climbs t step.1 mid ∧ step.2 ∈ mid.directParents)
    (hl : ∀ trail ∈ level, trail.Climbs c t) :
    (survey c column seen level steps).Climbs c column t := by
  induction steps generalizing seen level
  case nil => exact hl
  case cons step steps hi =>
    have ⟨path, r⟩ := step
    have ⟨⟨mid, hp, hr⟩, hs⟩ := List.forall_mem_cons.mp hs
    rw [survey]
    split
    case isTrue  => exact hi hs hl
    case isFalse =>
      split
      case h_1 => exact hi hs hl
      case h_2 up hu =>
        have hup : c.Climbs t (path ++ [r]) up := hp.snoc hr hu
        split
        case isTrue hd => exact ⟨up, hup, by simp, hd⟩
        case isFalse   =>
          refine hi hs fun trail ht => ?_
          cases List.mem_append.mp ht
          case inl ht => exact hl trail ht
          case inr ht => exact List.mem_singleton.mp ht ▸ hup

theorem climb_climbs {fuel : Nat} {seen : List String} {level : List Trail} {path : List Relation}
    (hl : ∀ trail ∈ level, trail.Climbs c t) (h : climb c column fuel seen level = some path) :
    ∃ up, c.Climbs t path up ∧ path ≠ [] ∧ up.declares column := by
  induction fuel generalizing seen level
  case zero => cases h
  case succ fuel hi =>
    have hs : (survey c column seen [] (stepsFrom level)).Climbs c column t := by
      refine survey_climbs (fun step hm => ?_) (by simp)
      obtain ⟨trail, ht, hm⟩ := List.mem_flatMap.mp hm
      obtain ⟨r, hr, rfl⟩ := List.mem_map.mp hm
      exact ⟨trail.table, hl trail ht, hr⟩
    rw [climb] at h
    split at h
    case h_1 found e =>
      cases h
      rw [e] at hs
      exact hs
    case h_2 => cases h
    case h_3 e =>
      rw [e] at hs
      exact hi hs h

theorem climbs_of_pathToAncestor {start : String} {path : List Relation}
    (hs : c.table? start = some t) (h : c.pathToAncestor start column = some path) :
    ∃ up, c.Climbs t path up ∧ path ≠ [] ∧ up.declares column := by
  rw [pathToAncestor, hs] at h
  refine climb_climbs (fun trail ht => ?_) h
  exact List.mem_singleton.mp ht ▸ .nil

-- A way up leaves a table by one of its direct relations.
theorem exists_first_of_pathToAncestor {start : String} {path : List Relation}
    (hs : c.table? start = some t) (h : c.pathToAncestor start column = some path) :
    ∃ r rest, path = r :: rest ∧ r ∈ t.directParents := by
  have ⟨_, hc, hn, _⟩ := climbs_of_pathToAncestor hs h
  cases hc
  case nil => exact absurd rfl hn
  case cons r rest _ hr _ => exact ⟨r, rest, rfl, hr⟩

end ReportExchange.Catalog
