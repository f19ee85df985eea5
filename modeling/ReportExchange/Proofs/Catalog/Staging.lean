import ReportExchange.Proofs.Catalog.Build

namespace ReportExchange

-- A table that is not finished yet, with the places of its columns.
structure Stage where
  table  : Table
  places : String → Option Nat

namespace Stage

def push (s : Stage) (column : Column) : Stage where
  table     := { s.table with columns := s.table.columns ++ [column] }
  places id := if id = column.id then some s.table.columns.length else s.places id

-- The stage of a table with its own columns, which is in no relation yet.
def ofDefinition (d : TableDefinition) : Stage :=
  d.columns.foldl push ⟨Catalog.assemble [] { d with columns := [] }, fun _ => none⟩

def column? (s : Stage) (id : String) : Option Column :=
  (s.places id).bind (s.table.columns[·]?)

def asParent (s : Stage) (r : Relation) : Stage :=
  { s with table := { s.table with children := s.table.children ++ [r] } }

-- The key of the parent is added, unless the index knows a column of its name.
def asChild (s : Stage) (r : Relation) : Stage :=
  let s := if (s.places r.foreignKey).isSome then s else s.push (Column.ofParent r.parent)
  { s with table := { s.table with parents := s.table.parents ++ [r] } }

-- What a relation does to the table of a name.
def relate (name : String) (s : Stage) (r : Relation) : Stage :=
  let s := if r.parent = name then s.asParent r else s
  if r.child = name then s.asChild r else s

end Stage

-- The tables of a catalog that is being built, and their names in order.
structure Staging where
  order  : List String
  stage? : String → Option Stage

namespace Staging

def enter (s : Staging) (d : TableDefinition) : Staging where
  order       := s.order ++ [d.name]
  stage? name := if name = d.name then some (.ofDefinition d) else s.stage? name

def update (s : Staging) (name : String) (f : Stage → Stage) : Staging where
  order    := s.order
  stage? n := if n = name then (s.stage? n).map f else s.stage? n

def relate (s : Staging) (r : Relation) : Staging :=
  (s.update r.parent (·.asParent r)).update r.child (·.asChild r)

def ofDefinition (d : CatalogDefinition) : Staging :=
  d.relations.foldl relate (d.tables.foldl enter ⟨[], fun _ => none⟩)

def stages (s : Staging) : List Stage :=
  s.order.filterMap s.stage?

end Staging

namespace Stage

variable {s : Stage} {id : String} {column : Column}

-- The index leads to every column, and nowhere else.
def Indexed (s : Stage) : Prop :=
  ∀ id i, s.places id = some i ↔ ∃ column, s.table.columns[i]? = some column ∧ column.id = id

namespace Indexed

theorem mem_columns_iff (h : s.Indexed) :
    (∃ column ∈ s.table.columns, column.id = id) ↔ ∃ i, s.places id = some i := by
  constructor
  case mp =>
    rintro ⟨column, hc, hi⟩
    obtain ⟨i, hi'⟩ := List.mem_iff_getElem?.mp hc
    exact ⟨i, (h id i).mpr ⟨column, hi', hi⟩⟩
  case mpr =>
    rintro ⟨i, hi⟩
    obtain ⟨column, hc, hid⟩ := (h id i).mp hi
    exact ⟨column, List.mem_of_getElem? hc, hid⟩

theorem isSome_places (h : s.Indexed) : (s.places id).isSome = s.table.declares id := by
  rw [Bool.eq_iff_iff, Option.isSome_iff_exists, ← h.mem_columns_iff]
  simp [Table.declares]

-- Two columns of one name would have one place.
theorem nodup (h : s.Indexed) : (s.table.columns.map (·.id)).Nodup := by
  rw [List.nodup_iff_injective_get]
  intro i j e
  have place (k : Fin (s.table.columns.map (·.id)).length) :
      s.places ((s.table.columns.map (·.id)).get k) = some k.val := by
    have hk : k.val < s.table.columns.length := by simpa using k.isLt
    exact (h _ _).mpr ⟨s.table.columns[k.val], by simp [hk], by simp⟩
  have hi := place i
  rw [e, place j] at hi
  exact Fin.ext (Option.some.inj hi).symm

theorem lt_length (h : s.Indexed) {i : Nat} (hi : s.places id = some i) :
    i < s.table.columns.length := by
  obtain ⟨_, hc, _⟩ := (h id i).mp hi
  exact (List.getElem?_eq_some_iff.mp hc).1

theorem column?_eq (h : s.Indexed) (id : String) : s.column? id = s.table.column? id := by
  refine Option.ext fun column => ?_
  rw [column?, Option.bind_eq_some_iff, Table.column?, find?_key_eq_some_iff h.nodup]
  constructor
  case mp =>
    rintro ⟨i, hi, hc⟩
    obtain ⟨column', hc', hid⟩ := (h id i).mp hi
    cases hc.symm.trans hc'
    exact ⟨List.mem_of_getElem? hc, hid⟩
  case mpr =>
    rintro ⟨hc, hid⟩
    obtain ⟨i, hi⟩ := List.mem_iff_getElem?.mp hc
    exact ⟨i, (h id i).mpr ⟨column, hi, hid⟩, hi⟩

-- A column of a new name takes the place after the last one.
theorem push (h : s.Indexed) (hc : ¬ s.table.declares column.id) : (s.push column).Indexed := by
  intro id i
  have hn : ¬ ∃ i, s.places column.id = some i := by
    simpa [← h.mem_columns_iff, Table.declares] using hc
  have hg (other : Column) : (s.table.columns ++ [column])[i]? = some other ↔
      s.table.columns[i]? = some other ∨ s.table.columns.length = i ∧ column = other := by
    rw [List.getElem?_append]
    split
    case isTrue hi  => simp [Nat.ne_of_gt hi]
    case isFalse hi =>
      rw [List.getElem?_eq_none (Nat.le_of_not_lt hi), List.getElem?_singleton]
      simp
      omega
  simp only [Stage.push, hg, or_and_right, exists_or, ← h id i]
  by_cases hid : id = column.id
  case pos =>
    subst hid
    simpa using fun e => absurd ⟨i, e⟩ hn
  case neg =>
    rw [if_neg hid]
    simp [Ne.symm hid]

-- The key of a parent is there already, or it is as new to the index as to the columns.
theorem asChild {r : Relation} (h : s.Indexed) :
    (s.asChild r).Indexed ∧ (s.asChild r).table =
      { s.table with
        columns := Catalog.withForeignKeys s.table.columns [r]
        parents := s.table.parents ++ [r] } := by
  rw [Stage.asChild, h.isSome_places]
  by_cases hd : s.table.declares r.foreignKey
  case pos =>
    have hw : Catalog.withForeignKeys s.table.columns [r] = s.table.columns := if_pos hd
    rw [if_pos hd, hw]
    exact ⟨h, rfl⟩
  case neg =>
    have hw : Catalog.withForeignKeys s.table.columns [r] =
      s.table.columns ++ [Column.ofParent r.parent] := if_neg hd
    rw [if_neg hd, hw]
    exact ⟨h.push hd, rfl⟩

end Indexed

-- Columns that are all new to a stage come after those that it has.
theorem indexed_foldl_push {columns : List Column} (h : s.Indexed)
    (hn : ((s.table.columns ++ columns).map (·.id)).Nodup) :
    (columns.foldl push s).Indexed ∧
      (columns.foldl push s).table =
        { s.table with columns := s.table.columns ++ columns } := by
  induction columns generalizing s
  case nil => exact ⟨h, by simp⟩
  case cons column columns hi =>
    have he : s.table.columns ++ column :: columns = (s.push column).table.columns ++ columns := by
      simp [push]
    rw [he] at hn ⊢
    have hc : ¬ s.table.declares column.id := by
      rw [List.map_append] at hn
      have hd : (s.table.columns ++ [column]).map (·.id) |>.Nodup := hn.of_append_left
      rw [List.map_append] at hd
      simpa [Table.declares] using (List.nodup_append.mp hd).2.2
    exact hi (h.push hc) hn

-- How far a stage has come: its table is in the relations that have been added so far.
structure Reaches (d : TableDefinition) (done : List Relation) (s : Stage) : Prop where
  indexed : s.Indexed
  table   : s.table = Catalog.assemble done d

namespace Reaches

variable {d : TableDefinition} {done : List Relation} {r : Relation}

theorem ofDefinition (h : (d.columns.map (·.id)).Nodup) : Reaches d [] (ofDefinition d) := by
  have hi : Indexed ⟨Catalog.assemble [] { d with columns := [] }, fun _ => none⟩ := by
    intro id i
    simp [Catalog.assemble, Catalog.withForeignKeys]
  exact ⟨(indexed_foldl_push hi h).1, (indexed_foldl_push hi h).2⟩

theorem relate (h : s.Reaches d done) (r : Relation) :
    (s.relate d.name r).Reaches d (done ++ [r]) := by
  have hp : (if r.parent = d.name then s.asParent r else s).Indexed := by
    split
    case isTrue  => exact h.indexed
    case isFalse => exact h.indexed
  rw [Stage.relate]
  by_cases hc : r.child = d.name
  case neg =>
    rw [if_neg hc]
    refine ⟨hp, ?_⟩
    split <;> simp [Stage.asParent, Catalog.assemble, h.table, *]
  case pos =>
    rw [if_pos hc]
    refine ⟨hp.asChild.1, hp.asChild.2.trans ?_⟩
    split <;> simp [Stage.asParent, Catalog.assemble, Catalog.withForeignKeys, h.table, *]

theorem relations (h : s.Reaches d done) (rs : List Relation) :
    (rs.foldl (Stage.relate d.name) s).Reaches d (done ++ rs) := by
  induction rs generalizing s done
  case nil => simpa using h
  case cons r rs hi => simpa using hi (h.relate r)

end Reaches

end Stage

namespace Staging

variable {s : Staging} {d : CatalogDefinition} {c : Catalog} {name : String}

theorem stage?_relate (s : Staging) (r : Relation) (name : String) :
    (s.relate r).stage? name = (s.stage? name).map (Stage.relate name · r) := by
  have hu (s : Staging) (table : String) (f : Stage → Stage) : (s.update table f).stage? name =
      (s.stage? name).map fun stage => if table = name then f stage else stage := by
    rw [update]
    split <;> simp_all [eq_comm]
  rw [relate, hu, hu, Option.map_map]
  rfl

theorem stage?_relations (s : Staging) (rs : List Relation) (name : String) :
    (rs.foldl relate s).stage? name =
      (s.stage? name).map fun stage => rs.foldl (Stage.relate name) stage := by
  induction rs generalizing s
  case nil => simp
  case cons r rs hi => rw [List.foldl_cons, hi, stage?_relate, Option.map_map]; rfl

theorem order_relations (s : Staging) (rs : List Relation) :
    (rs.foldl relate s).order = s.order := by
  induction rs generalizing s
  case nil          => rfl
  case cons r rs hi => exact hi (s.relate r)

theorem order_enter (s : Staging) (ts : List TableDefinition) :
    (ts.foldl enter s).order = s.order ++ ts.map (·.name) := by
  induction ts generalizing s
  case nil          => simp
  case cons t ts hi => rw [List.foldl_cons, hi]; simp [enter]

theorem stage?_enter_of_not_mem {ts : List TableDefinition} (h : name ∉ ts.map (·.name)) :
    (ts.foldl enter s).stage? name = s.stage? name := by
  induction ts generalizing s
  case nil => rfl
  case cons t ts hi =>
    rw [List.map_cons, List.mem_cons, not_or] at h
    exact (hi h.2).trans (if_neg h.1)

-- No table is entered over another.
theorem stage?_enter {ts : List TableDefinition} {t : TableDefinition}
    (hn : (ts.map (·.name)).Nodup) (h : t ∈ ts) :
    (ts.foldl enter s).stage? t.name = some (.ofDefinition t) := by
  induction ts generalizing s
  case nil => cases h
  case cons t' ts hi =>
    have ⟨ht, hn⟩ := List.nodup_cons.mp hn
    cases List.mem_cons.mp h
    case inr h => exact hi hn h
    case inl e =>
      subst e
      exact (stage?_enter_of_not_mem ht).trans (if_pos rfl)

theorem stage?_ofDefinition (hn : d.names.Nodup) {t : TableDefinition} (ht : t ∈ d.tables) :
    (ofDefinition d).stage? t.name =
      some (d.relations.foldl (Stage.relate t.name) (.ofDefinition t)) := by
  rw [ofDefinition, stage?_relations, stage?_enter hn ht]
  rfl

theorem stages_eq (hn : d.names.Nodup) : (ofDefinition d).stages =
    d.tables.map fun t => d.relations.foldl (Stage.relate t.name) (.ofDefinition t) := by
  have ho : (ofDefinition d).order = d.tables.map (·.name) := by
    rw [ofDefinition, order_relations, order_enter]
    rfl
  rw [stages, ho, List.filterMap_map, ← List.filterMap_eq_map]
  exact List.filterMap_congr fun t ht => stage?_ofDefinition hn ht

theorem reaches_relations (v : d.Valid) {t : TableDefinition} (ht : t ∈ d.tables) :
    (d.relations.foldl (Stage.relate t.name) (.ofDefinition t)).Reaches t d.relations :=
  (Stage.Reaches.ofDefinition (v.columns t ht)).relations d.relations

theorem tables_of_build (hb : Catalog.build d = .ok c) :
    (ofDefinition d).stages.map (·.table) = c.tables := by
  have ⟨v, ht⟩ := CatalogDefinition.valid_of_build hb
  rw [ht, stages_eq v.names, List.map_map]
  exact List.map_congr_left fun t hm => (reaches_relations v hm).table

-- Under a name there is the table that is listed under it.
theorem table?_of_build (hb : Catalog.build d = .ok c) (name : String) :
    ((ofDefinition d).stage? name).map (·.table) = c.table? name := by
  have ⟨v, ht⟩ := CatalogDefinition.valid_of_build hb
  by_cases hn : name ∈ d.names
  case pos =>
    obtain ⟨t, hm, rfl⟩ := List.mem_map.mp hn
    have hc : Catalog.assemble d.relations t ∈ c.tables := ht ▸ List.mem_map_of_mem hm
    have hf : c.table? t.name = some (Catalog.assemble d.relations t) :=
      (Catalog.sound_of_build hb).found _ hc
    rw [stage?_ofDefinition v.names hm, hf, Option.map_some, (reaches_relations v hm).table]
  case neg =>
    have hf : c.table? name = none := by
      refine List.find?_eq_none.mpr fun t hm he => hn ?_
      rw [← Catalog.names_of_build hb, ← of_decide_eq_true he]
      exact List.mem_map_of_mem hm
    rw [ofDefinition, stage?_relations, stage?_enter_of_not_mem hn, hf]
    rfl

end Staging

end ReportExchange
