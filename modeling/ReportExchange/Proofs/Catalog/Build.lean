import Mathlib.Data.List.Nodup
import ReportExchange.Catalog.Basic
import ReportExchange.Proofs.Catalog.Order
import ReportExchange.Proofs.Lookup

namespace ReportExchange

-- No key stands twice, and none has been seen before.
def Fresh {α : Type} (seen keys : List α) : Prop :=
  keys.Nodup ∧ ∀ key ∈ keys, key ∉ seen

theorem Fresh.nil {α : Type} {seen : List α} : Fresh seen [] :=
  ⟨List.nodup_nil, nofun⟩

theorem Fresh.cons_iff {α : Type} {key : α} {seen keys : List α} :
    Fresh seen (key :: keys) ↔ key ∉ seen ∧ Fresh (key :: seen) keys := by
  simp only [Fresh, List.nodup_cons, List.mem_cons, forall_eq_or_imp, not_or]
  constructor
  case mp =>
    rintro ⟨⟨hk, hn⟩, hs, h⟩
    exact ⟨hs, hn, fun x hx => ⟨fun e => hk (e ▸ hx), h x hx⟩⟩
  case mpr =>
    rintro ⟨hs, hn, h⟩
    exact ⟨⟨fun hk => (h _ hk).1 rfl, hn⟩, hs, fun x hx => (h x hx).2⟩

theorem Fresh.cons {α : Type} {key : α} {seen keys : List α} (hk : key ∉ seen)
    (h : Fresh (key :: seen) keys) : Fresh seen (key :: keys) :=
  Fresh.cons_iff.mpr ⟨hk, h⟩

theorem Fresh.of_perm {α : Type} {seen keys keys' : List α} (hp : keys.Perm keys')
    (h : Fresh seen keys) : Fresh seen keys' :=
  ⟨hp.nodup h.1, fun key hk => h.2 key (hp.mem_iff.mpr hk)⟩

namespace TableDefinition

-- What is checked of one column, whatever stands beside it.
structure Admits (table : String) (c : Column) : Prop where
  placed       : checkSection table c = .ok ()
  codeFormula  : checkFormula table c c.codeFormula = .ok ()
  labelFormula : checkFormula table c c.labelFormula = .ok ()

theorem checkColumns_eq_ok_iff {table : String} {seen : List String} {cs : List Column} :
    checkColumns table seen cs = .ok () ↔
      Fresh seen (cs.map (·.id)) ∧ ∀ c ∈ cs, Admits table c := by
  induction cs generalizing seen
  case nil => exact ⟨fun _ => ⟨.nil, List.forall_mem_nil _⟩, fun _ => rfl⟩
  case cons c cs hi =>
    simp only [List.map_cons, Fresh.cons_iff, List.forall_mem_cons]
    constructor
    case mp =>
      intro h
      rw [checkColumns] at h
      split at h
      case isTrue => cases h
      case isFalse hc =>
        have ⟨_, hp, h⟩ := bind_eq_ok.mp h
        have ⟨_, hf, h⟩ := bind_eq_ok.mp h
        have ⟨_, hl, h⟩ := bind_eq_ok.mp h
        have ⟨hs, ha⟩ := hi.mp h
        exact ⟨⟨hc, hs⟩, ⟨hp, hf, hl⟩, ha⟩
    case mpr =>
      rintro ⟨⟨hc, hs⟩, ⟨hp, hf, hl⟩, ha⟩
      rw [checkColumns, if_neg hc, hp, hf, hl]
      exact hi.mpr ⟨hs, ha⟩

theorem Admits.compiles {table : String} {c : Column} (h : Admits table c) {half : Half}
    {text : String} (hf : c.formulaFor half = some text) :
    ∃ f, Formula.compile text = .ok f := by
  have ht : checkFormula table c (some text) = .ok () := by
    cases half
    case code  => exact hf ▸ h.codeFormula
    case label => exact hf ▸ h.labelFormula
  simp only [checkFormula] at ht
  split at ht
  case h_1 f hc => exact ⟨f, hc⟩
  case h_2 => cases ht

end TableDefinition

namespace CatalogDefinition

-- The ends of the direct relations of a list.
def edges (relations : List Relation) : List (String × String) :=
  (relations.filter (·.direct)).map fun r => (r.parent, r.child)

-- What the checks make sure of.
structure Valid (d : CatalogDefinition) : Prop where
  names   : d.names.Nodup
  columns : ∀ t ∈ d.tables, (t.columns.map (·.id)).Nodup
  ends    : ∀ r ∈ d.relations, r.parent ∈ d.names ∧ r.child ∈ d.names
  edges   : (edges d.relations).Nodup
  order   : ∃ done, Acyclic.check d.names d.relations = .ok done

theorem checkTables_eq_ok_iff {seen : List String} {ts : List TableDefinition} :
    checkTables seen ts = .ok () ↔
      Fresh seen (ts.map (·.name)) ∧
      ∀ t ∈ ts, TableDefinition.checkColumns t.name [] t.columns = .ok () := by
  induction ts generalizing seen
  case nil => exact ⟨fun _ => ⟨.nil, nofun⟩, fun _ => rfl⟩
  case cons t ts hi =>
    simp only [List.map_cons, Fresh.cons_iff, List.forall_mem_cons]
    constructor
    case mp =>
      intro h
      rw [checkTables] at h
      split at h
      case isTrue => cases h
      case isFalse ht =>
        have ⟨_, hc, h⟩ := bind_eq_ok.mp h
        have ⟨hs, hcs⟩ := hi.mp h
        exact ⟨⟨ht, hs⟩, hc, hcs⟩
    case mpr =>
      rintro ⟨⟨ht, hs⟩, hc, hcs⟩
      rw [checkTables, if_neg ht]
      exact bind_eq_ok.mpr ⟨(), hc, hi.mpr ⟨hs, hcs⟩⟩

theorem checkRelations_ok {names : List String} {seen : List (String × String)}
    {rs : List Relation} (h : checkRelations names seen rs = .ok ()) :
    (∀ r ∈ rs, r.parent ∈ names ∧ r.child ∈ names) ∧ Fresh seen (edges rs) := by
  induction rs generalizing seen
  case nil => exact ⟨nofun, .nil⟩
  case cons r rs hi =>
    rw [checkRelations] at h
    split at h
    case isTrue => cases h
    case isFalse hp =>
      dsimp only at h
      split at h
      case isTrue => cases h
      case isFalse hc =>
        have hends := And.intro (not_not.mp hp) (not_not.mp hc)
        split at h
        case isFalse hd =>
          have ⟨he, hf⟩ := hi h
          refine ⟨List.forall_mem_cons.mpr ⟨hends, he⟩, ?_⟩
          rwa [edges, List.filter_cons_of_neg hd]
        case isTrue hd =>
          split at h
          case isTrue => cases h
          case isFalse =>
            split at h
            case isTrue => cases h
            case isFalse hs =>
              have ⟨he, hf⟩ := hi h
              refine ⟨List.forall_mem_cons.mpr ⟨hends, he⟩, ?_⟩
              rw [edges, List.filter_cons_of_pos hd]
              exact hf.cons hs

-- The checks that a definition has to pass.
structure Passes (d : CatalogDefinition) : Prop where
  tables    : checkTables [] d.tables = .ok ()
  relations : checkRelations d.names [] d.relations = .ok ()
  acyclic   : Catalog.checkAcyclic d = .ok ()

theorem build_eq_ok_iff {d : CatalogDefinition} {c : Catalog} :
    Catalog.build d = .ok c ↔
      d.Passes ∧ c.tables = d.tables.map (Catalog.assemble d.relations) := by
  constructor
  case mp =>
    intro h
    have ⟨_, ht, h⟩ := bind_eq_ok.mp h
    have ⟨_, hr, h⟩ := bind_eq_ok.mp h
    have ⟨_, ho, h⟩ := bind_eq_ok.mp h
    cases h
    exact ⟨⟨ht, hr, ho⟩, rfl⟩
  case mpr =>
    rintro ⟨⟨ht, hr, ho⟩, h⟩
    cases c
    cases h
    simp only [Catalog.build, ht, hr, ho]
    rfl

theorem valid_of_build {d : CatalogDefinition} {c : Catalog} (h : Catalog.build d = .ok c) :
    d.Valid ∧ c.tables = d.tables.map (Catalog.assemble d.relations) := by
  have ⟨⟨ht, hr, ho⟩, h⟩ := build_eq_ok_iff.mp h
  have ⟨hn, hc⟩ := checkTables_eq_ok_iff.mp ht
  have ⟨he, hd⟩ := checkRelations_ok hr
  refine ⟨⟨hn.1, fun t hm => ?_, he, hd.1, ?_⟩, h⟩
  case refine_1 => exact (TableDefinition.checkColumns_eq_ok_iff.mp (hc t hm)).1.1
  case refine_2 =>
    rw [Catalog.checkAcyclic] at ho
    split at ho
    case h_1 done hd => exact ⟨done, hd⟩
    case h_2 => cases ho

end CatalogDefinition

namespace Catalog

-- What everything that reads a catalog relies on.
structure Sound (c : Catalog) : Prop where
  found    : ∀ t ∈ c.tables, c.table? t.name = some t
  columns  : ∀ t ∈ c.tables, (t.columns.map (·.id)).Nodup
  children : ∀ t ∈ c.tables, ∀ r ∈ t.children,
    r.parent = t.name ∧ ∃ child ∈ c.tables, child.name = r.child ∧ r ∈ child.parents
  keys     : ∀ t ∈ c.tables, ∀ r ∈ t.parents, t.declares r.foreignKey
  edges    : ∀ t ∈ c.tables, (t.directChildren.map (·.child)).Nodup
  layered  : ∃ height : String → Nat, ∀ t ∈ c.tables, height t.name < c.tables.length ∧
    ∀ r ∈ t.directChildren, height r.child < height t.name

theorem withForeignKeys_nodup {columns : List Column} {parents : List Relation}
    (h : (columns.map (·.id)).Nodup) : ((withForeignKeys columns parents).map (·.id)).Nodup := by
  rw [withForeignKeys]
  induction parents generalizing columns
  case nil => exact h
  case cons r rs hi =>
    rw [List.foldl_cons]
    apply hi
    split
    case isTrue => exact h
    case isFalse hr =>
      rw [List.map_append, List.nodup_append]
      refine ⟨h, List.nodup_cons.mpr ⟨nofun, List.nodup_nil⟩, fun x hx y hy e => hr ?_⟩
      have ⟨column, hc, hx⟩ := List.mem_map.mp hx
      refine List.any_eq_true.mpr ⟨column, hc, decide_eq_true ?_⟩
      rw [hx, e, List.mem_singleton.mp hy]
      rfl

-- The columns stay in front. Behind them come keys of parents, each for want of a column of its name.
theorem withForeignKeys_eq (columns : List Column) (parents : List Relation) :
    ∃ added : List Relation, withForeignKeys columns parents =
        columns ++ added.map (fun r => Column.ofParent r.parent) ∧
      added.Sublist parents ∧ ∀ r ∈ added, ¬ columns.any (·.id = r.foreignKey) := by
  induction parents generalizing columns
  case nil => exact ⟨[], by simp [withForeignKeys]⟩
  case cons r rs hi =>
    by_cases hc : columns.any (·.id = r.foreignKey)
    case pos =>
      obtain ⟨added, he, hs, hn⟩ := hi columns
      refine ⟨added, ?_, hs.cons r, hn⟩
      rw [← he, withForeignKeys, List.foldl_cons, if_pos hc]
      rfl
    case neg =>
      obtain ⟨added, he, hs, hn⟩ := hi (columns ++ [Column.ofParent r.parent])
      refine ⟨r :: added, ?_, hs.cons_cons r,
        List.forall_mem_cons.mpr ⟨hc, fun s hs h => hn s hs ?_⟩⟩
      case refine_1 =>
        rw [withForeignKeys, List.foldl_cons, if_neg hc]
        exact he.trans (by simp)
      case refine_2 => rw [List.any_append, h, Bool.true_or]

theorem any_withForeignKeys {columns : List Column} {parents : List Relation} {id : String}
    (h : columns.any (·.id = id)) : (withForeignKeys columns parents).any (·.id = id) := by
  obtain ⟨_, he, _⟩ := withForeignKeys_eq columns parents
  rw [he, List.any_append, h, Bool.true_or]

theorem declares_withForeignKeys {columns : List Column} {parents : List Relation} {r : Relation}
    (h : r ∈ parents) : (withForeignKeys columns parents).any (·.id = r.foreignKey) := by
  induction parents generalizing columns
  case nil => cases h
  case cons s rs hi =>
    rw [withForeignKeys, List.foldl_cons]
    cases List.mem_cons.mp h
    case inr hm => exact hi hm
    case inl e =>
      subst e
      apply any_withForeignKeys
      split
      case isTrue hr => exact hr
      case isFalse   => simp [Column.ofParent, Relation.foreignKey]

theorem mem_withForeignKeys {columns : List Column} {parents : List Relation} {column : Column}
    (h : column ∈ withForeignKeys columns parents) :
    column ∈ columns ∨ ∃ parent, column = Column.ofParent parent := by
  obtain ⟨added, he, _⟩ := withForeignKeys_eq columns parents
  rw [he, List.mem_append, List.mem_map] at h
  cases h
  case inl hm => exact .inl hm
  case inr hm =>
    obtain ⟨r, _, rfl⟩ := hm
    exact .inr ⟨r.parent, rfl⟩

variable {d : CatalogDefinition} {c : Catalog}

theorem names_of_build (h : build d = .ok c) : c.tables.map (·.name) = d.names := by
  rw [(CatalogDefinition.valid_of_build h).2, List.map_map]
  rfl

-- A table has the relations of the definition that it takes part in.
theorem children_of_build (h : build d = .ok c) {t : Table} (ht : t ∈ c.tables) :
    t.children = d.relations.filter (·.parent = t.name) := by
  rw [(CatalogDefinition.valid_of_build h).2] at ht
  obtain ⟨td, _, rfl⟩ := List.mem_map.mp ht
  rfl

theorem parents_of_build (h : build d = .ok c) {t : Table} (ht : t ∈ c.tables) :
    t.parents = d.relations.filter (·.child = t.name) := by
  rw [(CatalogDefinition.valid_of_build h).2] at ht
  obtain ⟨td, _, rfl⟩ := List.mem_map.mp ht
  rfl

-- Every formula of a catalog can be read. The keys that are added for parents have none.
theorem compiles_of_build (h : build d = .ok c) {t : Table} (ht : t ∈ c.tables) {column : Column}
    (hc : column ∈ t.columns) {half : Half} {text : String}
    (hf : column.formulaFor half = some text) : ∃ f, Formula.compile text = .ok f := by
  have ⟨hp, e⟩ := CatalogDefinition.build_eq_ok_iff.mp h
  rw [e] at ht
  have ⟨td, hd, e⟩ := List.mem_map.mp ht
  subst e
  cases mem_withForeignKeys hc
  case inl hm =>
    have hk := (CatalogDefinition.checkTables_eq_ok_iff.mp hp.tables).2 td hd
    have ⟨_, ha⟩ := TableDefinition.checkColumns_eq_ok_iff.mp hk
    exact (ha column hm).compiles hf
  case inr e =>
    have ⟨parent, e⟩ := e
    subst e
    cases half <;> cases hf

theorem exists_of_mem_names (h : build d = .ok c) {name : String} (hn : name ∈ d.names) :
    ∃ t ∈ c.tables, t.name = name := by
  rw [← names_of_build h] at hn
  exact List.mem_map.mp hn

theorem edges_of_assemble (v : d.Valid) (t : TableDefinition) :
    ((assemble d.relations t).directChildren.map (·.child)).Nodup := by
  have hs : (assemble d.relations t).directChildren.Sublist (d.relations.filter (·.direct)) :=
    List.filter_sublist.filter _
  have he : (assemble d.relations t).directChildren.map (fun r => (r.parent, r.child)) =
      ((assemble d.relations t).directChildren.map (·.child)).map (Prod.mk t.name) := by
    rw [List.map_map]
    refine List.map_congr_left fun r hr => ?_
    have hp := (List.mem_filter.mp (List.mem_filter.mp hr).1).2
    rw [of_decide_eq_true hp]
    rfl
  exact .of_map (Prod.mk t.name) (he ▸ v.edges.sublist (hs.map _))

theorem childrenOf_assemble (t : TableDefinition) :
    Acyclic.childrenOf d.relations t.name =
      (assemble d.relations t).directChildren.map (·.child) := by
  simp [Acyclic.childrenOf, Table.directChildren, assemble, List.filter_filter]

-- Seen from below, a direct relation is one of its parent's too.
theorem exists_parent_of_build (h : build d = .ok c) {t : Table} (ht : t ∈ c.tables) {r : Relation}
    (hr : r ∈ t.directParents) :
    r.child = t.name ∧ ∃ up ∈ c.tables, up.name = r.parent ∧ r ∈ up.directChildren := by
  have ⟨v, _⟩ := CatalogDefinition.valid_of_build h
  rw [Table.directParents, parents_of_build h ht] at hr
  have ⟨hr, hd⟩ := List.mem_filter.mp hr
  have ⟨hr, hc⟩ := List.mem_filter.mp hr
  have ⟨up, hu, hn⟩ := exists_of_mem_names h (v.ends r hr).1
  refine ⟨of_decide_eq_true hc, up, hu, hn, List.mem_filter.mpr ⟨?_, hd⟩⟩
  rw [children_of_build h hu]
  exact List.mem_filter.mpr ⟨hr, decide_eq_true hn.symm⟩

theorem layered_of_build (h : build d = .ok c) :
    ∃ height : String → Nat, ∀ t ∈ c.tables, height t.name < c.tables.length ∧
      ∀ r ∈ t.directChildren, height r.child < height t.name := by
  have ⟨v, ht⟩ := CatalogDefinition.valid_of_build h
  have ⟨done, ho⟩ := v.order
  have closed (name : String) : Acyclic.childrenOf d.relations name ⊆ d.names := by
    intro child hc
    have ⟨r, hr, e⟩ := List.mem_map.mp hc
    exact e ▸ (v.ends r (List.mem_filter.mp hr).1).2
  have ⟨hd, hall⟩ := Acyclic.check_ok closed ho
  have hlen : done.length ≤ c.tables.length := by
    have hnames : (c.tables.map (·.name)).length = c.tables.length := List.length_map _
    rw [← hnames, names_of_build h]
    exact (List.subperm_of_subset hd.nodup hd.known).length_le
  refine ⟨Acyclic.height done, fun t hm => ?_⟩
  have hn : t.name ∈ done := hall (names_of_build h ▸ List.mem_map_of_mem hm)
  refine ⟨Nat.lt_of_lt_of_le (Acyclic.height_lt_length hn) hlen, fun r hr => hd.height_lt hn ?_⟩
  have ⟨td, _, e⟩ := List.mem_map.mp (ht ▸ hm)
  subst e
  exact childrenOf_assemble td ▸ List.mem_map_of_mem hr

theorem sound_of_build (h : build d = .ok c) : c.Sound where
  found t hm := by
    refine find?_key_eq_some (f := Table.name) ?_ hm
    exact names_of_build h ▸ (CatalogDefinition.valid_of_build h).1.names
  columns t hm := by
    have ⟨v, ht⟩ := CatalogDefinition.valid_of_build h
    have ⟨td, hd, e⟩ := List.mem_map.mp (ht ▸ hm)
    exact e ▸ withForeignKeys_nodup (v.columns td hd)
  children t hm r hr := by
    have ⟨v, _⟩ := CatalogDefinition.valid_of_build h
    rw [children_of_build h hm] at hr
    have ⟨hr, hp⟩ := List.mem_filter.mp hr
    have ⟨child, hc, hn⟩ := exists_of_mem_names h (v.ends r hr).2
    refine ⟨of_decide_eq_true hp, child, hc, hn, ?_⟩
    rw [parents_of_build h hc]
    exact List.mem_filter.mpr ⟨hr, decide_eq_true hn.symm⟩
  keys t hm r hr := by
    have ⟨v, ht⟩ := CatalogDefinition.valid_of_build h
    have ⟨td, _, e⟩ := List.mem_map.mp (ht ▸ hm)
    subst e
    exact declares_withForeignKeys hr
  edges t hm := by
    have ⟨v, ht⟩ := CatalogDefinition.valid_of_build h
    have ⟨td, _, e⟩ := List.mem_map.mp (ht ▸ hm)
    exact e ▸ edges_of_assemble v td
  layered := layered_of_build h

end Catalog

end ReportExchange
