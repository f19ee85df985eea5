import ReportExchange.Proofs.Formula.Steady
import ReportExchange.Proofs.Store.Rows
import ReportExchange.Store.DataFile

namespace ReportExchange

open Formula

-- A store with a cache of parents before it. As long as the cache hears of every change, it answers
-- as the store would.
structure Session where
  archive : Archive
  cache   : ParentCache := {}

namespace Session

-- The row by which the cache hears of a change. Only its table and its identity matter.
structure Notice (table : String) (id : RowId) where
  row      : Row
  table_eq : row.table.name = table
  id_eq    : row.id = id

-- The store has changed, and the cache has heard of it.
def changed {table : String} {id : RowId} (s : Session) (store : Store) (n : Notice table id) :
    Session where
  archive := { s.archive with store }
  cache   := s.cache.rowUpdated n.row

-- A computation has gone through the cache.
def after {α : Type} (s : Session) (m : StateM ParentCache α) : Session :=
  { s with cache := (m.run s.cache).2 }

-- One operation, with the lookups that it makes. A change counts as one with its notice. The
-- lookups of a computation are those of an inquiry that performs it.
inductive Step (s : Session) : List Lookup → Session → Prop
  | add (row : Row) {id : RowId} {store : Store} (n : Notice row.table.name id) :
    s.archive.store.add row = some (id, store) → Step s [] (s.changed store n)
  | update (row : Row) (n : Notice row.table.name row.id) :
    Step s [] (s.changed (s.archive.store.update row).2 n)
  | delete (table : String) (id : RowId) (n : Notice table id) :
    Step s [] (s.changed (s.archive.store.delete table id).2 n)
  | notice (row : Row) : Step s [] { s with cache := s.cache.rowUpdated row }
  | clear : Step s [] { s with cache := s.cache.clear }
  | parent (table : String) (id : RowId) :
    Step s [s.cache.lookup s.archive table id] (s.after fun c => c.parent s.archive table id)
  | resolve (row : Row) {q : Inquiry (Row × List CellFault)} :
    q.Performs s.archive.catalog (fun store => resolveRow ⟨s.archive.catalog, store⟩ row) →
    Step s (q.lookups s.archive s.cache) (s.after (resolveRow s.archive row))
  | refresh (row : Row) (column : String) {q : Inquiry (Row × Except FormulaError Unit)} :
    q.Performs s.archive.catalog
      (fun store => refreshColumn ⟨s.archive.catalog, store⟩ row column) →
    Step s (q.lookups s.archive s.cache) (s.after (refreshColumn s.archive row column))

inductive Run (s : Session) : List Lookup → Session → Prop
  | refl : Run s [] s
  | step {ls ms : List Lookup} {mid t : Session} :
    Run s ls mid → Step mid ms t → Run s (ls ++ ms) t

-- What an operation keeps, if the cache agrees with the store before it.
structure Kept (s : Session) (ls : List Lookup) (t : Session) : Prop where
  catalog : t.archive.catalog = s.archive.catalog
  slots   : t.cache.Faithful t.archive
  lookups : ∀ l ∈ ls, l.Transparent s.archive
  asked   : t.cache.fetches + t.cache.hits =
    s.cache.fetches + s.cache.hits + (Lookup.known s.archive.catalog ls).length

variable {s t : Session} {ls : List Lookup}

-- What else is stored stays as it is, and of the changed row the cache has heard.
theorem kept_of_change {store : Store} {table : String} {id : RowId} (n : Notice table id)
    (hs : s.cache.Faithful s.archive)
    (hf : ∀ t i, ¬ (table = t ∧ i = id) → store.find? t i = s.archive.store.find? t i) :
    Kept s [] (s.changed store n) where
  catalog := rfl
  lookups := List.forall_mem_nil _
  asked   := s.cache.asked_rowUpdated n.row
  slots   := by
    refine hs.rowUpdated fun t i hne => ?_
    rw [n.table_eq, n.id_eq] at hne
    rw [Archive.parent_eq, Archive.parent_eq, changed, hf t i hne]

theorem kept_of_performs {α : Type} {q : Inquiry α} {m : Store → StateM ParentCache α}
    (hs : s.cache.Faithful s.archive) (hq : q.Performs s.archive.catalog m) :
    Kept s (q.lookups s.archive s.cache) (s.after (m s.archive.store)) := by
  have ht : s.after (m s.archive.store) = { s with cache := (q.run s.archive s.cache).2 } := by
    rw [after, hq s.archive.store s.cache]
  rw [ht]
  exact ⟨rfl, (q.run_faithful hs).2, q.lookups_transparent hs, q.asked_run hs⟩

theorem Step.kept (h : Step s ls t) (hs : s.cache.Faithful s.archive) : Kept s ls t := by
  cases h
  case add row id store n ha =>
    refine kept_of_change n hs fun t i hne => ?_
    rw [Store.find?_add ha, if_neg fun h => hne ⟨h.1, h.2.symm⟩]
  case update row n =>
    refine kept_of_change n hs fun t i hne => ?_
    rw [Store.find?_update, if_neg fun h => hne ⟨h.1, h.2.1.symm⟩]
  case delete table id n =>
    refine kept_of_change n hs fun t i hne => ?_
    rw [Store.find?_delete, if_neg fun h => hne ⟨h.1, h.2.symm⟩]
  case notice row =>
    exact ⟨rfl, hs.rowUpdated fun _ _ _ => rfl, List.forall_mem_nil _,
      s.cache.asked_rowUpdated row⟩
  case clear => exact ⟨rfl, .empty, List.forall_mem_nil _, rfl⟩
  case parent table id =>
    exact kept_of_performs (q := .ask table id .answer)
      (m := fun store cache => cache.parent ⟨s.archive.catalog, store⟩ table id) hs fun _ _ => rfl
  case resolve hq => exact kept_of_performs hs hq
  case refresh hq => exact kept_of_performs hs hq

theorem Run.kept (h : Run s ls t) (hs : s.cache.Faithful s.archive) :
    t.archive.catalog = s.archive.catalog ∧ t.cache.Faithful t.archive ∧
      t.cache.fetches + t.cache.hits =
        s.cache.fetches + s.cache.hits + (Lookup.known s.archive.catalog ls).length := by
  induction h
  case refl => exact ⟨rfl, hs, rfl⟩
  case step hstep hi =>
    obtain ⟨hc, hm, ha⟩ := hi
    have k := hstep.kept hm
    refine ⟨k.catalog.trans hc, k.slots, ?_⟩
    rw [k.asked, ha, hc, Lookup.known_append, List.length_append, Nat.add_assoc]

-- From an empty cache on, whatever is stored, changed and asked: the slots hold what is stored,
-- every answer is the one that the store itself gives, and every question is counted. Computations
-- of formulas are no exception, as their questions are all that they learn of stored rows.
theorem session_transparent {c : Catalog} {store : Store} (h : Run ⟨⟨c, store⟩, {}⟩ ls s) :
    s.archive.catalog = c ∧
    (∀ table slot, s.cache.slot? table = some slot →
      s.archive.store.find? table slot.id = some slot.row) ∧
    (∀ table id, (s.cache.parent s.archive table id).1 =
      if c.Knows table then
        (s.archive.store.find? table id).elim (.error (.notFound table id)) .ok
      else .error (.catalog (.tableNotFound table))) ∧
    (∀ table id cause, (s.cache.parent s.archive table id).1 = .error cause →
      (s.cache.parent s.archive table id).2.slot? table = none) ∧
    s.cache.fetches + s.cache.hits = (Lookup.known c ls).length ∧
    (∀ made t, Step s made t → ∀ l ∈ made, l.Transparent s.archive) ∧
    (∀ row, (∃ q : Inquiry _, q.Performs c fun store => resolveRow ⟨c, store⟩ row) ∧
      ((resolveRow s.archive row).run s.cache).1 = fresh (resolveRow s.archive row)) ∧
    (∀ row column, (∃ q : Inquiry _, q.Performs c fun store => refreshColumn ⟨c, store⟩ row column) ∧
      ((refreshColumn s.archive row column).run s.cache).1 =
        fresh (refreshColumn s.archive row column)) := by
  obtain ⟨hc, hf, ha⟩ := h.kept .empty
  subst hc
  refine ⟨rfl, ?_, ?_, ?_, ?_, ?_, ?_, ?_⟩
  case refine_1 => exact fun table slot hs => (Archive.parent_eq_ok_iff.mp (hf table slot hs)).2
  case refine_2 =>
    intro table id
    rw [(ParentCache.parent_faithful table id hf).1, Archive.parent_eq]
  case refine_3 => exact fun table id cause => ParentCache.slot?_parent_of_error
  case refine_4 => exact ha.trans (Nat.zero_add _)
  case refine_5 => exact fun made t hstep => (hstep.kept hf).lookups
  case refine_6 =>
    exact fun row => ⟨inquires_resolveRow row, (steady_resolveRow row s.cache hf).1⟩
  case refine_7 =>
    have hr := inquires_refreshColumn (c := s.archive.catalog)
    exact fun row column => ⟨hr row column, ((hr row column).steady s.archive.store s.cache hf).1⟩

-- A probe takes its origin from its station, which is moved after it has been looked up.
namespace Stations

def definition : CatalogDefinition where
  tables := [
    { name := "station", columns := [{ id := "site" }] },
    { name := "probe", columns := [{ id := "origin", codeFormula := some "%site.code" }] }]
  relations := [{ parent := "station", child := "probe" }]

def records : List (String × List Record) := [
  ("station", [{ id := ⟨1⟩, cells := [("site", .plain "north")] }]),
  ("probe", [{ id := ⟨1⟩, cells := [("stationId", .plain "1")] }])]

def catalog : Catalog :=
  (Catalog.build definition).toOption.getD ⟨[]⟩

def store : Store :=
  (Store.ofTables catalog records).toOption.getD {}

def station : Row :=
  (store.rows "station").head (by decide)

def probe : Row :=
  (store.rows "probe").head (by decide)

def moved : Row :=
  (station.putCode "site" "south").toOption.getD station

def start : Session where
  archive := { catalog, store }

def asked : Session :=
  start.after fun c => c.parent start.archive "station" ⟨1⟩

def told : Session :=
  asked.changed (asked.archive.store.update moved).2
    (⟨moved, rfl, rfl⟩ : Notice moved.table.name moved.id)

def computed : Session :=
  told.after (resolveRow told.archive probe)

-- There is no second station.
def last : Session :=
  computed.after fun c => c.parent computed.archive "station" ⟨2⟩

end Stations

open Stations in
theorem session_transparent_stations :
    ((resolveRow told.archive probe).run told.cache).1.1.code "origin" = some "south" ∧
    ∃ ls, Run start ls last ∧ (Lookup.known catalog ls).length = 3 ∧
      (last.cache.parent last.archive "station" ⟨2⟩).1 = .error (.notFound "station" ⟨2⟩) := by
  refine ⟨by decide +kernel, ?_⟩
  obtain ⟨q, hq⟩ := inquires_resolveRow (c := told.archive.catalog) probe
  have hasked : Run start _ asked := Run.refl.step (.parent "station" ⟨1⟩)
  have htold : Run start _ told := hasked.step (.update moved _)
  have hcomputed : Run start _ computed := htold.step (.resolve probe hq)
  have hlast : Run start _ last := hcomputed.step (.parent "station" ⟨2⟩)
  obtain ⟨_, _, hp, _, hc, _⟩ := session_transparent hlast
  refine ⟨_, hlast, hc.symm.trans (by decide +kernel), (hp "station" ⟨2⟩).trans ?_⟩
  have hn : last.archive.store.find? "station" ⟨2⟩ = none := by decide +kernel
  rw [if_pos (by decide), hn]
  rfl

end Session

end ReportExchange
