import ReportExchange.Proofs.Ancestor.Faithful

namespace ReportExchange

variable {a : Archive} {cache : ParentCache} {table : String} {id : RowId}

-- A question for a parent row, its answer, and the cache that it left behind.
structure Lookup where
  table  : String
  id     : RowId
  answer : Except ParentError Row
  left   : ParentCache

namespace Lookup

-- The lookup cannot be told from one that reads the store itself.
structure Transparent (a : Archive) (l : Lookup) : Prop where
  answer : l.answer = a.parent l.table l.id
  slots  : l.left.Faithful a
  failed : ∀ cause, l.answer = .error cause → l.left.slot? l.table = none

-- The lookups whose table the catalog has.
def known (c : Catalog) (ls : List Lookup) : List Lookup :=
  ls.filter fun l => c.Knows l.table

theorem known_append (c : Catalog) (ls ms : List Lookup) :
    known c (ls ++ ms) = known c ls ++ known c ms :=
  List.filter_append ..

end Lookup

def ParentCache.lookup (cache : ParentCache) (a : Archive) (table : String) (id : RowId) :
    Lookup where
  table  := table
  id     := id
  answer := (cache.parent a table id).1
  left   := (cache.parent a table id).2

theorem ParentCache.lookup_transparent (h : cache.Faithful a) (table : String) (id : RowId) :
    (cache.lookup a table id).Transparent a where
  answer := (parent_faithful table id h).1
  slots  := (parent_faithful table id h).2
  failed := fun _ => slot?_parent_of_error

-- A computation with a question for a parent row at every node.
inductive Inquiry (α : Type)
  | answer (v : α)
  | ask (table : String) (id : RowId) (next : Except ParentError Row → Inquiry α)

namespace Inquiry

variable {α β : Type}

-- Asks through a cache.
def run (a : Archive) : Inquiry α → ParentCache → α × ParentCache
  | answer v, cache => (v, cache)
  | ask table id next, cache =>
    (next (cache.parent a table id).1).run a (cache.parent a table id).2

-- The lookups that are made on the way.
def lookups (a : Archive) : Inquiry α → ParentCache → List Lookup
  | answer _, _ => []
  | ask table id next, cache =>
    cache.lookup a table id ::
      (next (cache.parent a table id).1).lookups a (cache.parent a table id).2

-- Asks the store itself.
def direct (a : Archive) : Inquiry α → α
  | answer v => v
  | ask table id next => (next (a.parent table id)).direct a

def bind : Inquiry α → (α → Inquiry β) → Inquiry β
  | answer v, f => f v
  | ask table id next, f => ask table id fun r => (next r).bind f

theorem run_bind (q : Inquiry α) (f : α → Inquiry β) (a : Archive) (cache : ParentCache) :
    (q.bind f).run a cache = (f (q.run a cache).1).run a (q.run a cache).2 := by
  induction q generalizing cache
  case answer              => rfl
  case ask table id next hi => exact hi _ _

section Faithful

variable (q : Inquiry α)

theorem run_faithful (h : cache.Faithful a) :
    (q.run a cache).1 = q.direct a ∧ (q.run a cache).2.Faithful a := by
  induction q generalizing cache
  case answer => exact ⟨rfl, h⟩
  case ask table id next hi =>
    have ⟨hv, hf⟩ := ParentCache.parent_faithful table id h
    rw [run, direct, hv]
    exact hi _ hf

theorem lookups_transparent (h : cache.Faithful a) : ∀ l ∈ q.lookups a cache, l.Transparent a := by
  induction q generalizing cache
  case answer => exact fun l hl => by cases hl
  case ask table id next hi =>
    intro l hl
    cases List.mem_cons.mp hl
    case inl e  => exact e ▸ ParentCache.lookup_transparent h table id
    case inr hl => exact hi _ (ParentCache.parent_faithful table id h).2 l hl

theorem asked_run (h : cache.Faithful a) :
    (q.run a cache).2.fetches + (q.run a cache).2.hits =
      cache.fetches + cache.hits + (Lookup.known a.catalog (q.lookups a cache)).length := by
  induction q generalizing cache
  case answer => rfl
  case ask table id next hi =>
    rw [run, hi _ (ParentCache.parent_faithful table id h).2, ParentCache.asked_parent h]
    have ht : (cache.lookup a table id).table = table := rfl
    rw [lookups, Lookup.known, Lookup.known, List.filter_cons, ht]
    by_cases hk : a.catalog.Knows table <;> simp [hk]
    omega

end Faithful

-- What the inquiry asks and makes of the answers is what the computation does, whatever is stored
-- and whatever is cached.
def Performs (q : Inquiry α) (c : Catalog) (m : Store → StateM ParentCache α) : Prop :=
  ∀ s cache, (m s).run cache = q.run ⟨c, s⟩ cache

-- From an empty cache, the answers are those of the store.
theorem Performs.fresh_eq {q : Inquiry α} {c : Catalog} {m : Store → StateM ParentCache α}
    (h : q.Performs c m) (s : Store) : fresh (m s) = q.direct ⟨c, s⟩ := by
  rw [fresh, h s {}]
  exact (q.run_faithful .empty).1

theorem Performs.steady {q : Inquiry α} {c : Catalog} {m : Store → StateM ParentCache α}
    (h : q.Performs c m) (s : Store) : Steady ⟨c, s⟩ (m s) := by
  intro cache hc
  rw [h.fresh_eq s, h s cache]
  exact q.run_faithful hc

end Inquiry

-- A computation that learns of stored rows by its questions for parents only.
def Inquires {α : Type} (c : Catalog) (m : Store → StateM ParentCache α) : Prop :=
  ∃ q : Inquiry α, q.Performs c m

namespace Inquires

variable {α β : Type} {c : Catalog} {m : Store → StateM ParentCache α}
  {f : α → Store → StateM ParentCache β}

theorem pure (v : α) : Inquires c fun _ => Pure.pure v :=
  ⟨.answer v, fun _ _ => rfl⟩

theorem bind (hm : Inquires c m) (hf : ∀ v, Inquires c (f v)) :
    Inquires c fun s => m s >>= fun v => f v s := by
  obtain ⟨q, hq⟩ := hm
  obtain ⟨next, hn⟩ := Classical.axiomOfChoice hf
  refine ⟨q.bind next, fun s cache => ?_⟩
  rw [Inquiry.run_bind, ← hq s cache]
  exact hn _ s _

-- To a question it makes no difference whether the answer was cached.
theorem steady (hm : Inquires c m) (s : Store) : Steady ⟨c, s⟩ (m s) := by
  obtain ⟨q, hq⟩ := hm
  exact hq.steady s

end Inquires

end ReportExchange
