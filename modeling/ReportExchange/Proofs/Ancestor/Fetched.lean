import Mathlib.Data.List.Nodup
import Mathlib.Data.List.Perm.Subperm
import Mathlib.Logic.Relation
import ReportExchange.Proofs.Ancestor.Inquiry

namespace ReportExchange

variable {a : Archive} {c d : ParentCache} {k : String × RowId} {K : String × RowId → Prop}

namespace ParentCache

-- The row's table has given its slot to the row.
def Has (c : ParentCache) (k : String × RowId) : Prop :=
  ∃ slot, c.slot? k.1 = some slot ∧ slot.id = k.2

theorem Has.of_slot?_eq (h : c.Has k) (e : d.slot? k.1 = c.slot? k.1) : d.Has k := by
  rw [Has, e]
  exact h

-- The store's answer goes to the slot of its own table.
theorem slot?_fetch_of_ne {table t : String} (id : RowId) (h : t ≠ table) :
    (c.fetch a table id).2.slot? t = c.slot? t := by
  have he : (c.evict table).slot? t = c.slot? t := (c.slot?_evict table t).trans (if_neg h.symm)
  rw [fetch]
  cases a.catalog.table table
  case error => exact he
  case ok up =>
    cases hr : a.store.find? up.name id
    case none =>
      simp only [hr]
      exact he
    case some row =>
      simp only [hr, slot?_remember, if_neg h.symm]
      exact he

theorem id_of_slot?_fetch {table : String} {id : RowId} {slot : Slot}
    (h : (c.fetch a table id).2.slot? table = some slot) : slot.id = id := by
  cases hf : (c.fetch a table id).1
  case error => cases h.symm.trans (slot?_fetch_of_error hf)
  case ok row =>
    rw [fetch] at h hf
    cases ht : a.catalog.table table <;> simp only [ht] at h hf
    case error => cases hf
    case ok up =>
      cases hr : a.store.find? up.name id <;> simp only [hr] at h hf
      case none => cases hf
      case some =>
        rw [slot?_remember, if_pos rfl] at h
        cases h
        rfl

theorem fetches_fetch (c : ParentCache) (a : Archive) (table : String) (id : RowId) :
    (c.fetch a table id).2.fetches = c.fetches + if a.catalog.Knows table then 1 else 0 := by
  by_cases hk : a.catalog.Knows table
  case neg => simp [fetch, Catalog.table_of_not_knows hk, hk, evict]
  case pos =>
    obtain ⟨t, ht, -⟩ := Catalog.table_of_knows hk
    rw [fetch, ht, if_pos hk]
    cases hr : a.store.find? t.name id <;> simp only [hr, evict, remember]

-- A table that the catalog does not have gets no slot.
theorem slot?_of_not_knows (hc : c.Faithful a) {table : String} (h : ¬ a.catalog.Knows table) :
    c.slot? table = none := by
  cases hs : c.slot? table
  case none      => rfl
  case some slot => exact absurd (Archive.parent_eq_ok_iff.mp (hc table slot hs)).1 h

-- A question leaves the slots as they are, or the store is asked, and the slot of the table is for
-- nothing but its answer.
theorem parent_asks (hc : c.Faithful a) (table : String) (id : RowId) :
    ((c.parent a table id).2.fetches = c.fetches ∧
      ∀ t, (c.parent a table id).2.slot? t = c.slot? t) ∨
    ((c.parent a table id).2.fetches = c.fetches + 1 ∧ ¬ c.Has (table, id) ∧
      (∀ t, t ≠ table → (c.parent a table id).2.slot? t = c.slot? t) ∧
      ∀ slot, (c.parent a table id).2.slot? table = some slot → slot.id = id) := by
  by_cases hh : c.Has (table, id)
  case pos =>
    obtain ⟨slot, hs, e⟩ := hh
    have hp : c.parent a table id = (.ok slot.row, { c with hits := c.hits + 1 }) := by
      simp [parent, hs, e]
    rw [hp]
    exact .inl ⟨rfl, fun _ => rfl⟩
  case neg =>
    have hp : c.parent a table id = c.fetch a table id := by
      obtain ⟨slot, hs, e, _⟩ | e := c.parent_cases a table id
      case inl => exact absurd ⟨slot, hs, e⟩ hh
      case inr => exact e
    rw [hp, fetches_fetch]
    by_cases hk : a.catalog.Knows table
    case pos =>
      refine .inr ⟨by rw [if_pos hk], hh, fun t => slot?_fetch_of_ne id, fun slot => ?_⟩
      exact id_of_slot?_fetch
    case neg =>
      refine .inl ⟨by rw [if_neg hk, Nat.add_zero], fun t => ?_⟩
      by_cases e : t = table
      case neg => exact slot?_fetch_of_ne id e
      case pos =>
        subst e
        rw [slot?_of_not_knows hc hk, slot?_of_not_knows (fetch_faithful t id hc).2 hk]

end ParentCache

namespace Inquiry

variable {α : Type}

-- The rows that the store is asked for, one after the other.
def fetched (a : Archive) : Inquiry α → ParentCache → List (String × RowId)
  | answer _, _ => []
  | ask table id next, cache =>
    let left := (cache.parent a table id).2
    let later := (next (cache.parent a table id).1).fetched a left
    if left.fetches = cache.fetches then later else (table, id) :: later

theorem fetches_run (q : Inquiry α) (hc : c.Faithful a) :
    (q.run a c).2.fetches = c.fetches + (q.fetched a c).length := by
  induction q generalizing c
  case answer => rfl
  case ask table id next hi =>
    have hf := (ParentCache.parent_faithful table id hc).2
    rw [run, fetched, hi _ hf]
    obtain ⟨e, _⟩ | ⟨e, _⟩ := ParentCache.parent_asks hc table id
    case inl => simp [e]
    case inr =>
      simp only [e, Nat.add_eq_left, Nat.one_ne_zero, if_false, List.length_cons]
      omega

-- A slot changes by a question to the store only.
theorem slot?_run_of_not_mem (q : Inquiry α) (hc : c.Faithful a) {t : String}
    (ht : t ∉ (q.fetched a c).map (·.1)) : (q.run a c).2.slot? t = c.slot? t := by
  induction q generalizing c
  case answer => rfl
  case ask table id next hi =>
    have hf := (ParentCache.parent_faithful table id hc).2
    rw [fetched] at ht
    obtain ⟨e, hs⟩ | ⟨e, _, hs, _⟩ := ParentCache.parent_asks hc table id
    case inl =>
      rw [if_pos e] at ht
      exact (hi _ hf ht).trans (hs t)
    case inr =>
      rw [if_neg (by omega), List.map_cons, List.mem_cons, not_or] at ht
      exact (hi _ hf ht.2).trans (hs t ht.1)

-- If each table is asked for one row only, its slot is for no other row in the end.
theorem id_of_slot?_run (q : Inquiry α) (hc : c.Faithful a)
    (hn : ((q.fetched a c).map (·.1)).Nodup) (hk : k ∈ q.fetched a c) {slot : ParentCache.Slot}
    (hs : (q.run a c).2.slot? k.1 = some slot) : slot.id = k.2 := by
  induction q generalizing c
  case answer => cases hk
  case ask table id next hi =>
    have hf := (ParentCache.parent_faithful table id hc).2
    rw [fetched] at hn hk
    obtain ⟨e, _⟩ | ⟨e, _, _, ho⟩ := ParentCache.parent_asks hc table id
    case inl =>
      rw [if_pos e] at hn hk
      exact hi _ hf hn hk hs
    case inr =>
      rw [if_neg (by omega)] at hn hk
      obtain ⟨ht, hn⟩ := List.nodup_cons.mp hn
      obtain rfl | hk := List.mem_cons.mp hk
      case inr => exact hi _ hf hn hk hs
      case inl =>
        rw [run, slot?_run_of_not_mem _ hf ht] at hs
        exact ho slot hs

end Inquiry

-- Stored rows that are all of different tables.
structure Lineage (a : Archive) (K : String × RowId → Prop) : Prop where
  single : ∀ k l, K k → K l → k.1 = l.1 → k = l
  stored : ∀ k, K k → ∃ row, a.parent k.1 k.2 = .ok row

-- The second cache has come out of the first by questions for some of the rows.
def Drawn (a : Archive) (K : String × RowId → Prop) : ParentCache → ParentCache → Prop :=
  Relation.ReflTransGen fun c d => ∃ k, K k ∧ d = (c.parent a k.1 k.2).2

namespace Lineage

theorem has_parent (hK : Lineage a K) (c : ParentCache) (hk : K k) :
    (c.parent a k.1 k.2).2.Has k := by
  obtain ⟨slot, hs, e, hp⟩ | hp := c.parent_cases a k.1 k.2
  case inl =>
    rw [hp]
    exact ⟨slot, hs, e⟩
  case inr =>
    obtain ⟨row, hr⟩ := hK.stored k hk
    obtain ⟨hk, hr⟩ := Archive.parent_eq_ok_iff.mp hr
    obtain ⟨t, ht, hn⟩ := Catalog.table_of_knows hk
    rw [hp, ParentCache.fetch, ht]
    simp only [hn, hr]
    exact ⟨⟨k.2, row⟩, by rw [ParentCache.slot?_remember, if_pos rfl], rfl⟩

-- What is known of a cache after questions for rows of different tables: it has kept what it had of
-- them, and the store was asked once for each row that is new.
structure Grown (a : Archive) (K : String × RowId → Prop) (c d : ParentCache) : Prop where
  slots : d.Faithful a
  kept  : ∀ k, K k → c.Has k → d.Has k
  fresh : ∃ ks : List (String × RowId), ks.Nodup ∧ (∀ k ∈ ks, K k ∧ ¬ c.Has k ∧ d.Has k) ∧
    d.fetches = c.fetches + ks.length

theorem grown (hK : Lineage a K) (hc : c.Faithful a) (h : Drawn a K c d) : Grown a K c d := by
  induction h
  case refl => exact ⟨hc, fun _ _ hk => hk, [], List.nodup_nil, nofun, rfl⟩
  case tail mid d _ hd hi =>
    obtain ⟨k, hk, rfl⟩ := hd
    obtain ⟨hm, hkept, ks, hn, hks, hf⟩ := hi
    have hs := (ParentCache.parent_faithful k.1 k.2 hm).2
    have hhas := hK.has_parent mid hk
    have keep : ∀ l, K l → mid.Has l → (mid.parent a k.1 k.2).2.Has l := by
      intro l hl hh
      by_cases e : l.1 = k.1
      case pos => exact hK.single l k hl hk e ▸ hhas
      case neg =>
        obtain ⟨_, hslot⟩ | ⟨_, _, hslot, _⟩ := ParentCache.parent_asks hm k.1 k.2
        case inl => exact hh.of_slot?_eq (hslot l.1)
        case inr => exact hh.of_slot?_eq (hslot l.1 e)
    refine ⟨hs, fun l hl hh => keep l hl (hkept l hl hh), ?_⟩
    obtain ⟨e, _⟩ | ⟨e, hnew, _⟩ := ParentCache.parent_asks hm k.1 k.2
    case inl =>
      refine ⟨ks, hn, fun l hl => ?_, e.trans hf⟩
      obtain ⟨hl, hn, hh⟩ := hks l hl
      exact ⟨hl, hn, keep l hl hh⟩
    case inr =>
      refine ⟨k :: ks, ?_, ?_, ?_⟩
      case refine_1 => exact List.nodup_cons.mpr ⟨fun hm => hnew (hks k hm).2.2, hn⟩
      case refine_2 =>
        refine List.forall_mem_cons.mpr ⟨⟨hk, fun hh => hnew (hkept k hk hh), hhas⟩, fun l hl => ?_⟩
        obtain ⟨hl, hn, hh⟩ := hks l hl
        exact ⟨hl, hn, keep l hl hh⟩
      case refine_3 =>
        rw [e, hf, List.length_cons, Nat.add_assoc]

-- An inquiry that does to the cache what questions for rows of different tables do has asked the
-- store for these rows only, and for none twice.
theorem fetched_of_drawn {α : Type} (hK : Lineage a K) (q : Inquiry α) (hc : c.Faithful a)
    (h : Drawn a K c (q.run a c).2) :
    (q.fetched a c).Nodup ∧ ∀ k ∈ q.fetched a c, K k ∧ ¬ c.Has k ∧ (q.run a c).2.Has k := by
  obtain ⟨_, _, ks, hn, hks, hf⟩ := hK.grown hc h
  have hlen : (q.fetched a c).length = ks.length := by
    have := q.fetches_run hc
    omega
  have htables : (ks.map (·.1)).Nodup :=
    List.Nodup.map_on (fun k hk l hl => hK.single k l (hks k hk).1 (hks l hl).1) hn
  -- A row that is new in the cache has got there by a question for a row of its table.
  have hsub : ks.map (·.1) ⊆ (q.fetched a c).map (·.1) := by
    intro t ht
    obtain ⟨k, hk, rfl⟩ := List.mem_map.mp ht
    by_contra hm
    obtain ⟨_, hno, hh⟩ := hks k hk
    exact hno (hh.of_slot?_eq (q.slot?_run_of_not_mem hc hm).symm)
  -- There are no more questions than new rows, so each table has been asked for one row.
  have hperm : (ks.map (·.1)).Perm ((q.fetched a c).map (·.1)) :=
    (List.subperm_of_subset htables hsub).perm_of_length_le (by simp [hlen])
  have hq : ((q.fetched a c).map (·.1)).Nodup := hperm.nodup htables
  refine ⟨hq.of_map _, fun k hk => ?_⟩
  obtain ⟨l, hl, e⟩ := List.mem_map.mp (hperm.mem_iff.mpr (List.mem_map_of_mem hk))
  obtain ⟨hKl, hno, slot, hs, hi⟩ := hks l hl
  have hid : slot.id = k.2 := q.id_of_slot?_run hc hq hk (e ▸ hs)
  cases Prod.ext e (hi.symm.trans hid)
  exact ⟨hKl, hno, slot, hs, hi⟩

end Lineage

-- A computation that asks for none but the given rows.
def Draws {α : Type} (a : Archive) (K : String × RowId → Prop) (m : StateM ParentCache α) : Prop :=
  ∀ c, c.Faithful a → Drawn a K c (m.run c).2

namespace Draws

variable {α β : Type} {m : StateM ParentCache α} {f : α → StateM ParentCache β}

theorem pure (v : α) : Draws a K (Pure.pure v : StateM ParentCache α) :=
  fun _ _ => .refl

theorem mono {L : String × RowId → Prop} (h : Draws a K m) (hl : ∀ k, K k → L k) : Draws a L m :=
  fun c hc => Relation.ReflTransGen.mono (fun _ _ ⟨k, hk, e⟩ => ⟨k, hl k hk, e⟩) _ _ (h c hc)

-- What comes after a steady computation needs to be known for one value only.
theorem bind (hs : Steady a m) (hm : Draws a K m) (hf : Draws a K (f (fresh m))) :
    Draws a K (m >>= f) := by
  intro c hc
  have ⟨hv, hc'⟩ := hs c hc
  have h := hf _ hc'
  rw [← hv] at h
  exact (hm c hc).trans h

end Draws

end ReportExchange
