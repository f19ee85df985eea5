import Mathlib.Data.List.Forall2
import ReportExchange.Proofs.Ancestor.Faithful
import ReportExchange.Proofs.Index
import ReportExchange.Proofs.Store.Counter
import ReportExchange.Proofs.Success
import ReportExchange.Store.DataFile

namespace ReportExchange

-- The row has the version and the cells of a record.
structure Row.Reflects (r : Row) (record : Record) : Prop where
  version : r.version = record.version
  cells   : ∀ column, r.get column = Index.find? column record.cells

theorem Row.get_of_foldlM_put {cells : List (String × Cell)} {r r' : Row}
    (hn : (cells.map (·.1)).Nodup)
    (h : cells.foldlM (fun row (column, cell) => row.put column cell) r = .ok r')
    (column : String) : r'.get column = (Index.find? column cells).or (r.get column) := by
  induction cells generalizing r
  case nil =>
    cases h
    rfl
  case cons c cells hi =>
    have ⟨hc, hn⟩ := List.nodup_cons.mp hn
    obtain ⟨mid, hp, h⟩ := bind_eq_ok.mp h
    rw [hi hn h, get_of_put hp, Index.find?_cons]
    by_cases e : column = c.1
    case neg => rw [if_neg e, if_neg (Ne.symm e)]
    case pos =>
      rw [if_pos e, if_pos e.symm, e, Index.find?_eq_none hc]
      rfl

-- What a row takes over from its record.
structure Row.From (r : Row) (t : Table) (record : Record) : Prop where
  table    : r.table = t
  id       : r.id = record.id
  reflects : r.Reflects record

theorem Row.from_of_ofRecord {t : Table} {record : Record} {r : Row}
    (hn : (record.cells.map (·.1)).Nodup) (h : Row.ofRecord t record = .ok r) :
    r.From t record := by
  have hf : r.table = t ∧ r.id = record.id ∧ r.version = record.version := by
    refine foldlM_inv (fun r : Row => r.table = t ∧ r.id = record.id ∧ r.version = record.version)
      (fun c _ r r' hp hr => ?_) h ⟨rfl, rfl, rfl⟩
    have ⟨ht, hi, hv⟩ := frame_of_put hp
    rwa [ht, hi, hv]
  refine ⟨hf.1, hf.2.1, hf.2.2, fun column => ?_⟩
  rw [get_of_foldlM_put hn h]
  exact Option.or_none

namespace Store

-- The records of a data file in the order in which they are loaded, each with its table's name.
def recordsOf (tables : List (String × List Record)) : List (String × Record) :=
  tables.flatMap fun (table, records) => records.map (table, ·)

-- A record with the identity that it is stored under.
structure Filed where
  table  : String
  record : Record
  id     : RowId

-- The records as they are stored one after the other, when some identities have been seen before.
def file (seen : List RowId) : List (String × Record) → List Filed
  | [] => []
  | (table, record) :: rest =>
    let id := RowId.assigned seen record.id
    ⟨table, record, id⟩ :: file (id :: seen) rest

-- No two records of a table state one identity.
def Distinct (records : List (String × Record)) : Prop :=
  records.Pairwise fun a b => a.1 = b.1 → a.2.id.isSet → a.2.id ≠ b.2.id

instance (records : List (String × Record)) : Decidable (Distinct records) :=
  inferInstanceAs (Decidable (List.Pairwise _ _))

-- The store has one row for every record.
structure Keeps (s : Store) (records : List (String × Record)) : Prop where
  size : s.size = records.length
  rows : ∀ entry ∈ records, ∃ row ∈ s.rows entry.1, row.Reflects entry.2

-- Two records do not take each other's place.
def Filed.Apart (e f : Filed) : Prop :=
  e.table = f.table → e.id ≠ f.id

instance (e f : Filed) : Decidable (e.Apart f) :=
  inferInstanceAs (Decidable (_ → _))

variable {s s' : Store} {seen : List RowId} {records : List (String × Record)} {es : List Filed}
variable {e : Filed} {row : Row}

theorem length_file (seen : List RowId) (records : List (String × Record)) :
    (file seen records).length = records.length := by
  induction records generalizing seen
  case nil            => rfl
  case cons _ _ hi => rw [file, List.length_cons, List.length_cons, hi]

theorem map_file (seen : List RowId) (records : List (String × Record)) :
    (file seen records).map (fun e => (e.table, e.record)) = records := by
  induction records generalizing seen
  case nil            => rfl
  case cons _ _ hi => rw [file, List.map_cons, hi]

-- As long as the counter does not come to its end, an identity that is handed out differs from those
-- that have been seen before.
theorem assigned_of_mem_file (hs : RowId.last ∉ seen)
    (hl : ∀ e ∈ file seen records, e.id ≠ RowId.last) (h : e ∈ file seen records) :
    (e.record.id.isSet → e.id = e.record.id) ∧
    (¬ e.record.id.isSet → e.id.isSet ∧ e.id ∉ seen) := by
  induction records generalizing seen
  case nil => cases h
  case cons entry records hi =>
    obtain ⟨hid, hl⟩ := List.forall_mem_cons.mp hl
    obtain rfl | h := List.mem_cons.mp h
    case inl =>
      exact ⟨fun h => if_pos h, fun h => ⟨RowId.isSet_assigned hs h, RowId.assigned_not_mem hs h⟩⟩
    case inr =>
      have ⟨h₁, h₂⟩ := hi (List.not_mem_cons_of_ne_of_not_mem hid.symm hs) hl h
      exact ⟨h₁, fun h => ⟨(h₂ h).1, List.not_mem_of_not_mem_cons (h₂ h).2⟩⟩

theorem file_pairwise (hs : RowId.last ∉ seen) (hl : ∀ e ∈ file seen records, e.id ≠ RowId.last) :
    (file seen records).Pairwise fun e f => ¬ f.record.id.isSet → e.id ≠ f.id := by
  induction records generalizing seen
  case nil             => exact .nil
  case cons entry _ hi =>
    obtain ⟨hid, hl⟩ := List.forall_mem_cons.mp hl
    have hs' := List.not_mem_cons_of_ne_of_not_mem hid.symm hs
    refine .cons (fun f hf h e => ?_) (hi hs' hl)
    exact ((assigned_of_mem_file hs' hl hf).2 h).2 (e ▸ List.mem_cons_self)

-- Records get into each other's way only where one is given an identity that a later one states.
theorem apart_iff (hd : Distinct records) (hl : ∀ e ∈ file [] records, e.id ≠ RowId.last) :
    (file [] records).Pairwise Filed.Apart ↔
      (file [] records).Pairwise fun e f =>
        e.table = f.table → ¬ e.record.id.isSet → f.record.id ≠ e.id := by
  have hd' : (file [] records).Pairwise fun e f =>
      e.table = f.table → e.record.id.isSet → e.record.id ≠ f.record.id := by
    rw [Distinct, ← map_file [] records, List.pairwise_map] at hd
    exact hd
  have assigned {e : Filed} := assigned_of_mem_file (e := e) List.not_mem_nil hl
  constructor
  case mp =>
    refine fun h => h.imp_of_mem fun {e f} he hf ha ht hs hid => ha ht ?_
    have hset : f.record.id.isSet := hid ▸ ((assigned he).2 hs).1
    rw [← hid, (assigned hf).1 hset]
  case mpr =>
    intro h
    refine (h.and (hd'.and (file_pairwise List.not_mem_nil hl))).imp_of_mem ?_
    rintro e f he hf ⟨hn, hd, hp⟩ ht
    by_cases hf' : f.record.id.isSet
    case neg => exact hp hf'
    case pos =>
      rw [(assigned hf).1 hf']
      by_cases he' : e.record.id.isSet
      case neg => exact (hn ht he').symm
      case pos =>
        rw [(assigned he).1 he']
        exact hd ht he'

-- Rows of records are added to a store one after the other, each under its identity.
inductive Loads : Store → List Filed → Store → Prop
  | nil {s : Store} : Loads s [] s
  | cons {s mid s' : Store} {e : Filed} {es : List Filed} {row : Row} :
    row.table.name = e.table → s.add row = some (e.id, mid) → row.Reflects e.record →
    Loads mid es s' → Loads s (e :: es) s'

namespace Loads

theorem id_ne_last (h : Loads s es s') : ∀ e ∈ es, e.id ≠ RowId.last := by
  induction h
  case nil             => exact List.forall_mem_nil _
  case cons _ ha _ _ hi => exact List.forall_mem_cons.mpr ⟨(add_eq_some_iff.mp ha).2.1, hi⟩

theorem find?_of_not_mem (h : Loads s es s') {table : String} {id : RowId}
    (hn : ∀ e ∈ es, ¬ (e.table = table ∧ e.id = id)) :
    s'.find? table id = s.find? table id := by
  induction h
  case nil => rfl
  case cons ht ha _ _ hi =>
    have ⟨he, hn⟩ := List.forall_mem_cons.mp hn
    rw [hi hn, find?_add ha, if_neg fun hk => he ⟨ht.symm.trans hk.1, hk.2⟩]

-- A record that no later one takes the place of is found in the end.
theorem found (h : Loads s es s') (ha : es.Pairwise Filed.Apart) :
    ∀ e ∈ es, ∃ row, s'.find? e.table e.id = some row ∧ row.Reflects e.record := by
  induction h
  case nil => exact List.forall_mem_nil _
  case cons s mid s' e es row ht hadd hr hl hi =>
    have ⟨he, hs⟩ := List.pairwise_cons.mp ha
    refine List.forall_mem_cons.mpr ⟨⟨row.withId e.id, ?_, hr.version, hr.cells⟩, hi hs⟩
    have hn : ∀ f ∈ es, ¬ (f.table = e.table ∧ f.id = e.id) :=
      fun f hf hk => he f hf hk.1.symm hk.2.symm
    rw [hl.find?_of_not_mem hn, find?_add hadd, if_pos ⟨ht, rfl⟩]

-- A store grows by as many rows as there are records, if and only if none takes a place that is
-- taken already.
theorem size (h : Loads s es s') : s'.size ≤ s.size + es.length ∧
    (s'.size = s.size + es.length ↔
      es.Pairwise Filed.Apart ∧ ∀ e ∈ es, s.find? e.table e.id = none) := by
  induction h
  case nil => exact ⟨Nat.le_refl _, iff_of_true rfl ⟨.nil, List.forall_mem_nil _⟩⟩
  case cons s mid s' e es row ht hadd hr hl hi =>
    have hsize := size_add hadd
    rw [ht] at hsize
    have hfree : (∀ f ∈ es, mid.find? f.table f.id = none) ↔
        (∀ f ∈ es, Filed.Apart e f) ∧ ∀ f ∈ es, s.find? f.table f.id = none := by
      rw [← forall₂_and]
      refine forall₂_congr fun f _ => ?_
      rw [find?_add hadd, ht, Filed.Apart]
      by_cases hk : e.table = f.table ∧ e.id = f.id
      case pos => simp [hk]
      case neg =>
        rw [if_neg hk]
        exact ⟨fun hf => ⟨fun ht hid => hk ⟨ht, hid⟩, hf⟩, And.right⟩
    rw [List.length_cons, List.pairwise_cons, List.forall_mem_cons]
    cases hf : s.find? e.table e.id
    case none =>
      simp only [hf, Option.isSome_none, Bool.false_eq_true, if_false] at hsize
      refine ⟨by omega, ?_⟩
      have hadd : s'.size = s.size + (es.length + 1) ↔ s'.size = mid.size + es.length := by omega
      rw [hadd, hi.2, hfree]
      simp only [true_and]
      tauto
    case some =>
      simp only [hf, Option.isSome_some, if_true] at hsize
      refine ⟨by omega, iff_of_false (by omega) (by simp)⟩

end Loads

-- Rows one after the other, as they come from the records of a file.
def addAll (s : Store) (rows : List Row) : Option Store :=
  rows.foldlM (fun s row => (s.add row).map (·.2)) s

theorem addAll_cons_eq_some_iff {rows : List Row} :
    s.addAll (row :: rows) = some s' ↔
      ∃ id mid, s.add row = some (id, mid) ∧ mid.addAll rows = some s' := by
  rw [addAll, List.foldlM_cons]
  rcases s.add row with _ | ⟨id, mid⟩ <;> simp [addAll]

theorem addAll_append (s : Store) (rows more : List Row) :
    s.addAll (rows ++ more) = (s.addAll rows).bind (·.addAll more) :=
  List.foldlM_append

-- The row comes from the record of its table.
def IsRow (entry : String × Record) (row : Row) : Prop :=
  row.table.name = entry.1 ∧ row.id = entry.2.id ∧ row.Reflects entry.2

theorem loads_of_addAll {rows : List Row} (h : List.Forall₂ IsRow records rows)
    (hc : s.Counts seen) (ha : s.addAll rows = some s') : Loads s (file seen records) s' := by
  induction h generalizing s seen
  case nil =>
    cases ha
    exact .nil
  case cons entry row _ _ hr _ hi =>
    obtain ⟨id, mid, hadd, ha⟩ := addAll_cons_eq_some_iff.mp ha
    obtain rfl : id = RowId.assigned seen entry.2.id :=
      (add_eq_some_iff.mp hadd).1.trans (hr.2.1 ▸ hc.identityFor_eq row)
    exact .cons hr.1 hadd hr.2.2 (hi (hc.add hadd) ha)

-- The cells of every record stand in the order of their columns, each once.
def Ordered (tables : List (String × List Record)) : Prop :=
  ∀ entry ∈ tables, ∀ record ∈ entry.2, (record.cells.map (·.1)).Nodup

theorem rows_of_addTable {c : Catalog} {name : String} {rs : List Record}
    (hn : ∀ record ∈ rs, (record.cells.map (·.1)).Nodup) (h : addTable c s name rs = .ok s') :
    ∃ rows, List.Forall₂ IsRow (rs.map (name, ·)) rows ∧ s.addAll rows = some s' := by
  rw [addTable, Catalog.table] at h
  cases ht : c.table? name <;> rw [ht] at h
  case none   => cases h
  case some t =>
    have hname := Catalog.name_of_table? ht
    change addRecords t s rs = .ok s' at h
    rw [addRecords] at h
    induction rs generalizing s
    case nil =>
      cases h
      exact ⟨[], .nil, rfl⟩
    case cons record rs hi =>
      obtain ⟨hr, hn⟩ := List.forall_mem_cons.mp hn
      obtain ⟨mid, hm, h⟩ := bind_eq_ok.mp h
      obtain ⟨row, id, hrow, ha⟩ := addRecord_eq_ok_iff.mp hm
      obtain ⟨rows, hrows, hmore⟩ := hi hn h
      have hf := Row.from_of_ofRecord hr hrow
      refine ⟨row :: rows, .cons ⟨hf.table ▸ hname, hf.id, hf.reflects⟩ hrows, ?_⟩
      exact addAll_cons_eq_some_iff.mpr ⟨id, mid, ha, hmore⟩

theorem rows_of_ofTables {c : Catalog} {tables : List (String × List Record)}
    (hn : Ordered tables) (h : ofTables c tables = .ok s) :
    ∃ rows, List.Forall₂ IsRow (recordsOf tables) rows ∧ addAll {} rows = some s := by
  rw [ofTables] at h
  generalize ({} : Store) = start at h ⊢
  induction tables generalizing start
  case nil =>
    cases h
    exact ⟨[], .nil, rfl⟩
  case cons entry tables hi =>
    obtain ⟨name, rs⟩ := entry
    have ⟨hr, hn⟩ := List.forall_mem_cons.mp hn
    obtain ⟨mid, hm, h⟩ := bind_eq_ok.mp h
    obtain ⟨rows, hrows, ha⟩ := rows_of_addTable hr hm
    obtain ⟨more, hmore, ha'⟩ := hi hn _ h
    refine ⟨rows ++ more, List.rel_append hrows hmore, ?_⟩
    rw [addAll_append, ha]
    exact ha'

theorem loads_of_ofTables {c : Catalog} {tables : List (String × List Record)}
    (hn : Ordered tables) (h : ofTables c tables = .ok s) : Loads {} (file [] (recordsOf tables)) s :=
  have ⟨_, hrows, ha⟩ := rows_of_ofTables hn h
  loads_of_addAll hrows .empty ha

-- Every record of a file keeps its row if and only if no two of them are stored under one identity.
theorem Loads.keeps_iff (h : Loads {} (file [] records) s) :
    s.Keeps records ↔ (file [] records).Pairwise Filed.Apart := by
  have hsize := h.size.2
  rw [length_file, show ({} : Store).size = 0 from rfl, Nat.zero_add] at hsize
  constructor
  case mp  => exact fun hk => (hsize.mp hk.size).1
  case mpr =>
    intro ha
    refine ⟨hsize.mpr ⟨ha, fun _ _ => rfl⟩, fun entry he => ?_⟩
    rw [← map_file [] records, List.mem_map] at he
    obtain ⟨e, hm, rfl⟩ := he
    obtain ⟨row, hf, hr⟩ := h.found ha e hm
    exact ⟨row, List.mem_of_find?_eq_some hf, hr⟩

theorem nodup_of_recordOfDatum? {d : Datum} {record : Record} (h : Record.ofDatum? d = some record) :
    (record.cells.map (·.1)).Nodup := by
  simp only [Record.ofDatum?, Option.bind_eq_bind, Option.bind_eq_some_iff] at h
  obtain ⟨m, _, id, _, version, _, cells, hc, h⟩ := h
  cases h
  rw [Datum.Members.withDefault] at hc
  split at hc
  case h_2 =>
    cases hc
    exact .nil
  case h_1 =>
    obtain ⟨entries, _, hc⟩ := Option.bind_eq_some_iff.mp hc
    obtain ⟨cells, _, hc⟩ := Option.bind_eq_some_iff.mp hc
    cases hc
    exact (Index.ascending_ofList cells).nodup

theorem ordered_of_tablesOfDatum? {d : Datum} {tables : List (String × List Record)}
    (h : tablesOfDatum? d = some tables) : Ordered tables := by
  obtain ⟨entries, _, h⟩ := Option.bind_eq_some_iff.mp h
  obtain ⟨read, hm, h⟩ := Option.bind_eq_some_iff.mp h
  cases h
  intro entry he record hr
  obtain ⟨⟨name, items⟩, _, hf⟩ := exists_of_mem_mapM hm (Index.mem_of_mem_ofList he)
  obtain ⟨records, hrs, rfl⟩ := Option.map_eq_some_iff.mp hf
  obtain ⟨ds, _, hds⟩ := Option.bind_eq_some_iff.mp hrs
  obtain ⟨d, _, hd⟩ := exists_of_mem_mapM hds hr
  exact nodup_of_recordOfDatum? hd

-- A data file is loaded without loss if and only if no two of its records are stored under one
-- identity. Where all stated identities differ, this means that no record is given an identity that a
-- later one of its table states, as it is the case where the records that state one come first.
theorem keeps_iff_unclaimed {c : Catalog} {text : String} {tables : List (String × List Record)}
    {s : Store} (ht : (Json.read? text).bind tablesOfDatum? = some tables)
    (hs : ofJson c text = .ok s) (hd : Distinct (recordsOf tables)) :
    (s.Keeps (recordsOf tables) ↔ (file [] (recordsOf tables)).Pairwise Filed.Apart) ∧
    (s.Keeps (recordsOf tables) ↔ (file [] (recordsOf tables)).Pairwise fun e f =>
      e.table = f.table → ¬ e.record.id.isSet → f.record.id ≠ e.id) ∧
    ((recordsOf tables).Pairwise (fun a b => a.1 = b.1 → b.2.id.isSet → a.2.id.isSet) →
      s.Keeps (recordsOf tables)) := by
  obtain ⟨d, hr, htd⟩ := Option.bind_eq_some_iff.mp ht
  have hload : ofTables c tables = .ok s := by
    rw [ofJson, hr] at hs
    simpa only [ofDatum, htd] using hs
  have h := loads_of_ofTables (ordered_of_tablesOfDatum? htd) hload
  have hk := h.keeps_iff.trans (apart_iff hd h.id_ne_last)
  refine ⟨h.keeps_iff, hk, fun hfirst => hk.mpr ?_⟩
  rw [← map_file [] (recordsOf tables), List.pairwise_map] at hfirst
  refine hfirst.imp_of_mem fun {e f} he _ hf ht hs hid => hs (hf ht ?_)
  exact hid ▸ ((assigned_of_mem_file List.not_mem_nil h.id_ne_last he).2 hs).1

-- Vials that state their identities, and some that do not.
namespace Vials

def catalog : Catalog :=
  ⟨[Catalog.assemble [] { name := "vial", columns := [{ id := "dye" }] }]⟩

def red : Record :=
  { cells := [("dye", .plain "red")] }

def numbered (id : RowId) : Record :=
  { id, cells := [("dye", .plain "blue")] }

-- The red vial is given the identity after 4, and the next one states a smaller one.
def mixed : String :=
  "\x7b\"vial\": [\x7b\"id\": 4, \"cells\": \x7b\"dye\": \"blue\"\x7d\x7d, " ++
  "\x7b\"cells\": \x7b\"dye\": \"red\"\x7d\x7d, " ++
  "\x7b\"id\": 1, \"cells\": \x7b\"dye\": \"blue\"\x7d\x7d]\x7d"

def mixedTables : List (String × List Record) :=
  [("vial", [numbered ⟨4⟩, red, numbered ⟨1⟩])]

-- The red vial is given the identity that the next one states.
def claimed : String :=
  "\x7b\"vial\": [\x7b\"cells\": \x7b\"dye\": \"red\"\x7d\x7d, " ++
  "\x7b\"id\": 1, \"cells\": \x7b\"dye\": \"blue\"\x7d\x7d]\x7d"

def claimedTables : List (String × List Record) :=
  [("vial", [red, numbered ⟨1⟩])]

end Vials

open Vials in
theorem keeps_iff_unclaimed_mixed :
    ∃ s, ofJson catalog mixed = .ok s ∧ s.Keeps (recordsOf mixedTables) ∧
      s.size = 3 ∧ ∃ row ∈ s.rows "vial", row.Reflects red := by
  obtain ⟨s, hs⟩ := exists_eq_ok (x := ofJson catalog mixed) (by decide +kernel)
  have ht : (Json.read? mixed).bind tablesOfDatum? = some mixedTables := by decide +kernel
  obtain ⟨hk, _⟩ := keeps_iff_unclaimed ht hs (by decide +kernel)
  have h := hk.mpr (by decide +kernel)
  exact ⟨s, hs, h, h.size, h.rows ("vial", red) (by decide +kernel)⟩

-- A record that has been given an identity is lost, if a later one of its table states it.
open Vials in
theorem loading_loses_records :
    ¬ ∀ (c : Catalog) (text : String) (tables : List (String × List Record)) (s : Store),
      (Json.read? text).bind tablesOfDatum? = some tables → ofJson c text = .ok s →
      Distinct (recordsOf tables) → s.Keeps (recordsOf tables) := by
  intro h
  obtain ⟨s, hs⟩ := exists_eq_ok (x := ofJson catalog claimed) (by decide +kernel)
  have hk := h catalog claimed claimedTables s (by decide +kernel) hs (by decide +kernel)
  have hone : (ofJson catalog claimed).toOption.map (·.size) = some 1 := by decide +kernel
  rw [hs] at hone
  have htwo : (recordsOf claimedTables).length = 1 := hk.size.symm.trans (Option.some.inj hone)
  exact absurd htwo (by decide)

end Store

end ReportExchange
