import Mathlib.Data.List.Sort
import ReportExchange.Proofs.Row.Record

namespace ReportExchange.Store

-- A store that has come about by work on rows of a catalog's tables.
inductive Worked (c : Catalog) : Store → Prop
  | empty : Worked c {}
  | add {s s' : Store} {row : Row} {id : RowId} :
    c.table? row.table.name = some row.table → Worked c s → s.add row = some (id, s') → Worked c s'
  | update {s : Store} {row : Row} :
    c.table? row.table.name = some row.table → Worked c s → Worked c (s.update row).2
  | delete {s : Store} (table : String) (id : RowId) :
    Worked c s → Worked c (s.delete table id).2

-- Every table has one shelf at most, with rows of the table that the catalog has under its name.
structure Tidy (c : Catalog) (shelves : List Shelf) : Prop where
  tables : (shelves.map (·.table)).Nodup
  known  : ∀ shelf ∈ shelves, ∃ t, c.table? shelf.table = some t ∧ ∀ r ∈ shelf.rows, r.table = t

variable {c : Catalog} {s s' : Store} {row r : Row} {shelves : List Shelf} {table : String}
  {id : RowId} {rows : List Row}

theorem map_table_shelve (row : Row) (shelves : List Shelf) :
    (shelve row shelves).map (·.table) =
      if row.table.name ∈ shelves.map (·.table) then shelves.map (·.table)
      else shelves.map (·.table) ++ [row.table.name] := by
  induction shelves
  case nil => rfl
  case cons shelf shelves hi =>
    rw [shelve]
    split
    case isTrue h =>
      rw [List.map_cons, List.map_cons, if_pos (h ▸ List.mem_cons_self)]
      rfl
    case isFalse h =>
      simp only [List.map_cons, hi, List.mem_cons, h, false_or]
      split <;> rfl

namespace Tidy

theorem shelve (h : Tidy c shelves) (hr : c.table? row.table.name = some row.table) :
    Tidy c (shelve row shelves) where
  tables := by
    rw [map_table_shelve]
    split
    case isTrue     => exact h.tables
    case isFalse hn =>
      exact List.nodup_append'.mpr ⟨h.tables, List.nodup_singleton _, by simpa using hn⟩
  known := by
    have hk := h.known
    clear h
    induction shelves
    case nil =>
      refine List.forall_mem_singleton.mpr ⟨row.table, hr, fun r hm => ?_⟩
      rw [List.mem_singleton.mp hm]
    case cons shelf shelves hi =>
      obtain ⟨hs, hk⟩ := List.forall_mem_cons.mp hk
      rw [Store.shelve]
      split
      case isFalse => exact List.forall_mem_cons.mpr ⟨hs, hi hk⟩
      case isTrue e =>
        obtain ⟨t, ht, hrows⟩ := hs
        refine List.forall_mem_cons.mpr ⟨⟨t, ht, fun r hm => ?_⟩, hk⟩
        obtain rfl | hm := Shelf.mem_place hm
        case inr => exact hrows r hm
        case inl => exact Option.some.inj (hr.symm.trans (e ▸ ht))

theorem erase (h : Tidy c shelves) (table : String) (id : RowId) :
    Tidy c (shelves.map fun shelf => if shelf.table = table then shelf.erase id else shelf) where
  tables := by
    rw [List.map_map]
    refine (congrArg List.Nodup (List.map_congr_left fun shelf _ => ?_)).mpr h.tables
    dsimp only [Function.comp]
    split <;> rfl
  known := by
    refine List.forall_mem_map.mpr fun shelf hs => ?_
    obtain ⟨t, ht, hr⟩ := h.known shelf hs
    split
    case isFalse => exact ⟨t, ht, hr⟩
    case isTrue  => exact ⟨t, ht, fun r hm => hr r (List.mem_filter.mp hm).1⟩

end Tidy

namespace Worked

theorem tidy (h : Worked c s) : Tidy c s.shelves := by
  induction h
  case empty => exact ⟨.nil, nofun⟩
  case add hr _ ha hi =>
    obtain ⟨-, -, rfl⟩ := add_eq_some_iff.mp ha
    exact hi.shelve hr
  case update hr _ hi =>
    rw [Store.update]
    split
    case isTrue  => exact hi.shelve hr
    case isFalse => exact hi
  case delete table id _ hi =>
    rw [Store.delete]
    split
    case isTrue  => exact hi.erase table id
    case isFalse => exact hi

theorem history (h : Worked c s) : ∃ seen, History seen s := by
  induction h
  case empty => exact ⟨[], .empty⟩
  case add row _ _ _ ha hi =>
    obtain ⟨seen, hs⟩ := hi
    exact ⟨_, hs.add row ha⟩
  case update row _ _ hi =>
    obtain ⟨seen, hs⟩ := hi
    exact ⟨_, hs.update row⟩
  case delete table id _ hi =>
    obtain ⟨seen, hs⟩ := hi
    exact ⟨_, hs.delete table id⟩

theorem addAll (h : Worked c s) (hr : ∀ r ∈ rows, c.table? r.table.name = some r.table)
    (ha : s.addAll rows = some s') : Worked c s' := by
  induction rows generalizing s
  case nil =>
    cases ha
    exact h
  case cons row rows hi =>
    obtain ⟨hrow, hr⟩ := List.forall_mem_cons.mp hr
    obtain ⟨id, mid, hadd, ha⟩ := addAll_cons_eq_some_iff.mp ha
    exact hi (h.add hrow hadd) hr ha

theorem isSet (h : Worked c s) (hr : r ∈ s.rows table) : r.id.isSet ∧ r.id ≠ RowId.last := by
  obtain ⟨seen, hs⟩ := h.history
  have hm := hs.counts.stored table r hr
  exact ⟨isSet_of_history hs r.id hm, fun e => hs.counts.last (e ▸ hm)⟩

end Worked

-- The rows in the order in which a data file lists them.
def listed (s : Store) : List Row :=
  s.toTables.flatMap fun e => s.rows e.1

theorem mem_listed_iff : r ∈ s.listed ↔ ∃ table, r ∈ s.rows table := by
  rw [listed, List.mem_flatMap]
  constructor
  case mp =>
    rintro ⟨e, _, hr⟩
    exact ⟨e.1, hr⟩
  case mpr =>
    rintro ⟨table, hr⟩
    have hs : table ∈ s.shelves.map (·.table) := by
      rw [rows] at hr
      split at hr
      case h_2 => cases hr
      case h_1 shelf hs =>
        have ht := List.find?_some hs
        exact List.mem_map.mpr ⟨shelf, List.mem_of_find?_eq_some hs, of_decide_eq_true ht⟩
    have ht : table ∈ s.toTables.map (·.1) := by
      rwa [toTables, Index.mem_keys_ofList, List.map_map]
    obtain ⟨e, he, rfl⟩ := List.mem_map.mp ht
    exact ⟨e, he, hr⟩

section Written

theorem mem_toTables {e : String × List Record} (h : Tidy c s.shelves) (he : e ∈ s.toTables) :
    (∃ t, c.table? e.1 = some t ∧ ∀ r ∈ s.rows e.1, r.table = t) ∧
      e.2 = (s.rows e.1).map Row.toRecord := by
  obtain ⟨shelf, hs, rfl⟩ := List.mem_map.mp (Index.mem_of_mem_ofList he)
  have hrows : s.rows shelf.table = shelf.rows := by
    rw [rows, find?_key_eq_some h.tables hs]
  dsimp only
  rw [hrows]
  exact ⟨h.known shelf hs, rfl⟩

theorem writable (s : Store) : Json.Writable s.toDatum := by
  refine .record fun e he => ?_
  obtain ⟨table, _, rfl⟩ := List.mem_map.mp he
  refine .list fun d hd => ?_
  obtain ⟨record, _, rfl⟩ := List.mem_map.mp hd
  exact record.writable

theorem tablesOfDatum?_toDatum (h : Worked c s) : tablesOfDatum? s.toDatum = some s.toTables := by
  rw [tablesOfDatum?, toDatum, Datum.entries?]
  simp only [Option.bind_eq_bind, Option.bind_some]
  rw [mapM_map_eq_some, Option.bind_some, toTables,
    Index.ofList_of_ascending (Index.ascending_ofList _)]
  · rfl
  · intro e he
    have hr : (e.2.map Record.toDatum).mapM Record.ofDatum? = some e.2 := by
      refine mapM_map_eq_some fun record hr => ?_
      rw [(mem_toTables h.tidy he).2] at hr
      obtain ⟨r, hm, rfl⟩ := List.mem_map.mp hr
      exact Record.ofDatum?_toDatum (h.isSet hm).1 (Index.ascending_ofList r.populated)
    simp only [Datum.each, Datum.list?, Option.bind_some, hr, Option.map_some]

end Written

section Loading

theorem addRecords_toRecord {t : Table} (h : ∀ r ∈ rows, r.table = t)
    (ha : s.addAll rows = some s') : addRecords t s (rows.map Row.toRecord) = .ok s' := by
  rw [addRecords]
  induction rows generalizing s
  case nil =>
    cases ha
    rfl
  case cons row rows hi =>
    obtain ⟨hr, hrows⟩ := List.forall_mem_cons.mp h
    obtain ⟨id, mid, hadd, ha⟩ := addAll_cons_eq_some_iff.mp ha
    have ho : Row.ofRecord t row.toRecord = .ok row := hr ▸ row.ofRecord_toRecord
    rw [List.map_cons, List.foldlM_cons, addRecord_eq_ok_iff.mpr ⟨row, id, ho, hadd⟩]
    exact hi hrows ha

theorem ofTables_toTables (h : Tidy c s.shelves) (ha : addAll {} s.listed = some s') :
    ofTables c s.toTables = .ok s' := by
  rw [ofTables]
  rw [listed] at ha
  have hm : ∀ e ∈ s.toTables, _ := fun e he => mem_toTables h he
  generalize s.toTables = tables, ({} : Store) = start at hm ha ⊢
  induction tables generalizing start
  case nil =>
    cases ha
    rfl
  case cons e tables hi =>
    obtain ⟨⟨⟨t, ht, hr⟩, he⟩, hm⟩ := List.forall_mem_cons.mp hm
    rw [List.flatMap_cons, addAll_append] at ha
    obtain ⟨mid, ha, hmore⟩ := Option.bind_eq_some_iff.mp ha
    have hadd : addTable c start e.1 e.2 = .ok mid := by
      rw [addTable, Catalog.table, ht, he]
      exact addRecords_toRecord hr ha
    exact bind_eq_ok.mpr ⟨mid, hadd, hi mid hm hmore⟩

-- Rows that are found in a store are found in another one too, once they have been added to it.
theorem exists_addAll (hid : ∀ r ∈ rows, r.id.isSet ∧ r.id ≠ RowId.last)
    (hf : ∀ r ∈ rows, s.find? r.table.name r.id = some r) :
    ∃ s'', s'.addAll rows = some s'' ∧ ∀ table id,
      (s'.find? table id = s.find? table id ∨ ∃ r ∈ rows, r.table.name = table ∧ r.id = id) →
      s''.find? table id = s.find? table id := by
  induction rows generalizing s'
  case nil => exact ⟨s', rfl, fun table id h => h.resolve_right (by simp)⟩
  case cons row rows hi =>
    obtain ⟨⟨hset, hl⟩, hid⟩ := List.forall_mem_cons.mp hid
    obtain ⟨hfound, hf⟩ := List.forall_mem_cons.mp hf
    have hown : row.id = s'.identityFor row := by rw [identityFor, if_pos hset]
    have hadd := add_eq_some_iff.mpr ⟨hown, hl, rfl⟩
    obtain ⟨s'', ha, hkeep⟩ := hi hid hf
    refine ⟨s'', addAll_cons_eq_some_iff.mpr ⟨row.id, _, hadd, ha⟩, fun table id h => ?_⟩
    refine hkeep table id ?_
    rw [find?_add hadd]
    by_cases hk : row.table.name = table ∧ row.id = id
    case pos =>
      obtain ⟨rfl, rfl⟩ := hk
      rw [if_pos ⟨rfl, rfl⟩, hfound]
      exact .inl rfl
    case neg =>
      rw [if_neg hk]
      refine h.imp_right ?_
      rintro ⟨r, hr, hkey⟩
      obtain rfl | hr := List.mem_cons.mp hr
      case inl => exact absurd hkey hk
      case inr => exact ⟨r, hr, hkey⟩

theorem exists_addAll_listed (h : Worked c s) :
    ∃ s', addAll {} s.listed = some s' ∧ ∀ table id, s'.find? table id = s.find? table id := by
  have hid : ∀ r ∈ s.listed, r.id.isSet ∧ r.id ≠ RowId.last := fun r hr =>
    have ⟨_, hr⟩ := mem_listed_iff.mp hr
    h.isSet hr
  have hf : ∀ r ∈ s.listed, s.find? r.table.name r.id = some r := fun r hr => by
    obtain ⟨table, hr⟩ := mem_listed_iff.mp hr
    exact table_of_mem_rows hr ▸ find?_eq_some_of_mem hr
  obtain ⟨s', ha, hkeep⟩ := exists_addAll hid hf
  refine ⟨s', ha, fun table id => hkeep table id ?_⟩
  cases hr : s.find? table id
  case none   => exact .inl rfl
  case some r =>
    have hm := List.mem_of_find?_eq_some hr
    exact .inr ⟨r, mem_listed_iff.mpr ⟨table, hm⟩, table_of_mem_rows hm, id_of_find? hr⟩

end Loading

-- Rows stand in the order of their identities, so it is enough to know which of them are found.
theorem rows_eq_of_find? (h : ∀ id, s'.find? table id = s.find? table id) :
    s'.rows table = s.rows table := by
  have : Std.Irrefl fun r t : Row => r.id.val < t.id.val := ⟨fun _ => Int64.lt_irrefl⟩
  have : Std.Antisymm fun r t : Row => r.id.val < t.id.val :=
    ⟨fun _ _ hlt hgt => absurd (Int64.lt_trans hlt hgt) Int64.lt_irrefl⟩
  refine (s'.rows_ascending table).eq_of_mem_iff (s.rows_ascending table) fun r => ?_
  rw [mem_rows_iff_find?, mem_rows_iff_find?, h]

-- A store is loaded from its dump with every row at its place.
theorem ofJson_toJson (h : Worked c s) : ∃ s', ofJson c s.toJson = .ok s' ∧
    (∀ table id, s'.find? table id = s.find? table id) ∧
    (∀ table, s'.rows table = s.rows table) ∧
    ∀ table parent id, s'.childrenOf table parent id = s.childrenOf table parent id := by
  obtain ⟨s', ha, hfind⟩ := exists_addAll_listed h
  have hload : ofJson c s.toJson = .ok s' := by
    rw [ofJson, toJson, Json.read?_pretty s.writable]
    simp only [ofDatum, tablesOfDatum?_toDatum h, ofTables_toTables h.tidy ha]
  have hrows (table : String) := rows_eq_of_find? fun id => hfind table id
  refine ⟨s', hload, hfind, hrows, fun table parent id => ?_⟩
  rw [childrenOf, childrenOf, hrows]

-- A crate with a red vial in it, and a vial that has been deleted again.
namespace Crates

def relations : List Relation :=
  [{ parent := "crate", child := "vial" }]

def crates : Table :=
  Catalog.assemble relations { name := "crate" }

def vials : Table :=
  Catalog.assemble relations { name := "vial", columns := [{ id := "dye" }] }

def catalog : Catalog :=
  ⟨[crates, vials]⟩

def red : Row :=
  let record : Record :=
    { version := some "2", cells := [("crateId", .plain "1"), ("dye", ⟨"r", "red"⟩)] }
  (Row.ofRecord vials record).toOption.getD (.blank vials)

def held : List Row :=
  [.blank crates, red, .blank vials]

def stocked : Store :=
  (((addAll {} held).getD {}).delete "vial" ⟨3⟩).2

theorem worked : Worked catalog stocked := by
  have hr : ∀ r ∈ held, catalog.table? r.table.name = some r.table := by decide
  exact .delete "vial" ⟨3⟩ (Worked.empty.addAll hr rfl)

end Crates

open Crates in
theorem ofJson_toJson_stocked : ∃ s, ofJson catalog stocked.toJson = .ok s ∧
    s.rows "vial" = [red.withId ⟨2⟩] ∧ s.childrenOf "vial" "crate" ⟨1⟩ = [red.withId ⟨2⟩] := by
  obtain ⟨s, hs, _, hr, hc⟩ := ofJson_toJson worked
  exact ⟨s, hs, hr "vial", hc "vial" "crate" ⟨1⟩⟩

end ReportExchange.Store
