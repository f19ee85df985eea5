import ReportExchange.Ancestor.Cache

namespace ReportExchange

variable {a : Archive}

namespace Catalog

variable {c : Catalog} {table : String}

theorem name_of_table? {t : Table} (h : c.table? table = some t) : t.name = table :=
  of_decide_eq_true (List.find?_some (p := fun t : Table => t.name = table) h)

-- The catalog has a table of the name.
def Knows (c : Catalog) (table : String) : Prop :=
  (c.table? table).isSome

instance (c : Catalog) (table : String) : Decidable (c.Knows table) :=
  inferInstanceAs (Decidable (_ = _))

theorem table_of_knows (h : c.Knows table) : ∃ t, c.table table = .ok t ∧ t.name = table := by
  have ⟨t, ht⟩ := Option.isSome_iff_exists.mp h
  exact ⟨t, by rw [Catalog.table, ht], name_of_table? ht⟩

theorem table_of_not_knows (h : ¬ c.Knows table) :
    c.table table = .error (.tableNotFound table) := by
  rw [Catalog.table, Option.not_isSome_iff_eq_none.mp h]

end Catalog

namespace Archive

variable {table : String} {id : RowId}

-- The catalog decides whether the store is asked at all.
theorem parent_eq (a : Archive) (table : String) (id : RowId) :
    a.parent table id =
      if a.catalog.Knows table then (a.store.find? table id).elim (.error (.notFound table id)) .ok
      else .error (.catalog (.tableNotFound table)) := by
  by_cases h : a.catalog.Knows table
  case neg => rw [if_neg h, parent, Catalog.table_of_not_knows h]
  case pos =>
    obtain ⟨t, ht, rfl⟩ := Catalog.table_of_knows h
    rw [if_pos h, parent, ht]
    cases hf : a.store.find? t.name id <;> simp [hf]

theorem parent_eq_ok_iff {row : Row} :
    a.parent table id = .ok row ↔ a.catalog.Knows table ∧ a.store.find? table id = some row := by
  rw [parent_eq]
  by_cases h : a.catalog.Knows table
  case neg => simp [h]
  case pos => cases a.store.find? table id <;> simp [h]

end Archive

namespace ParentCache

-- Every slot holds what the store would answer.
def Faithful (a : Archive) (c : ParentCache) : Prop :=
  ∀ table slot, c.slot? table = some slot → a.parent table slot.id = .ok slot.row

namespace Faithful

variable {c : ParentCache} {table : String} {id : RowId} {row : Row}

theorem empty : Faithful a {} := nofun

theorem evict (h : c.Faithful a) (table : String) : (c.evict table).Faithful a := by
  intro t slot hs
  rw [slot?_evict] at hs
  split at hs
  case isTrue  => cases hs
  case isFalse => exact h t slot hs

theorem remember (h : c.Faithful a) (hr : a.parent table id = .ok row) :
    (c.remember table id row).Faithful a := by
  intro t slot hs
  rw [slot?_remember] at hs
  split at hs
  case isTrue e  => cases e; cases hs; exact hr
  case isFalse   => exact h t slot hs

end Faithful

variable {c : ParentCache} {table : String} {id : RowId}

theorem fetch_faithful (table : String) (id : RowId) (h : c.Faithful a) :
    (c.fetch a table id).1 = a.parent table id ∧ (c.fetch a table id).2.Faithful a := by
  rw [fetch]
  cases ht : a.catalog.table table
  case error e => exact ⟨by simp [Archive.parent, ht], h.evict table⟩
  case ok t =>
    cases hr : a.store.find? t.name id
    case none =>
      simp only [hr]
      exact ⟨by simp [Archive.parent, ht, hr], h.evict table⟩
    case some row =>
      have hp : a.parent table id = .ok row := by simp [Archive.parent, ht, hr]
      simp only [hr]
      have he := h.evict table
      exact ⟨hp.symm, Faithful.remember (c := { c.evict table with fetches := _ }) he hp⟩

-- The cache answers by the slot of the very identity, or asks the store.
theorem parent_cases (c : ParentCache) (a : Archive) (table : String) (id : RowId) :
    (∃ slot, c.slot? table = some slot ∧ slot.id = id ∧
      c.parent a table id = (.ok slot.row, { c with hits := c.hits + 1 })) ∨
    c.parent a table id = c.fetch a table id := by
  rw [parent]
  cases hs : c.slot? table
  case none => exact .inr rfl
  case some slot =>
    by_cases e : slot.id = id
    case pos => exact .inl ⟨slot, rfl, e, if_pos e⟩
    case neg => exact .inr (if_neg e)

theorem parent_faithful (table : String) (id : RowId) (h : c.Faithful a) :
    (c.parent a table id).1 = a.parent table id ∧ (c.parent a table id).2.Faithful a := by
  obtain ⟨slot, hs, rfl, e⟩ | e := c.parent_cases a table id
  · rw [e]
    exact ⟨(h table slot hs).symm, h⟩
  · rw [e]
    exact fetch_faithful table id h

theorem asked_fetch (c : ParentCache) (a : Archive) (table : String) (id : RowId) :
    (c.fetch a table id).2.fetches + (c.fetch a table id).2.hits =
      c.fetches + c.hits + if a.catalog.Knows table then 1 else 0 := by
  by_cases hk : a.catalog.Knows table
  case neg => simp [fetch, Catalog.table_of_not_knows hk, hk, evict]
  case pos =>
    obtain ⟨t, ht, -⟩ := Catalog.table_of_knows hk
    rw [fetch, ht, if_pos hk]
    cases hr : a.store.find? t.name id
    case none     => simp only [hr, evict]; omega
    case some row => simp only [hr, evict, remember]; omega

-- Every question about a table of the catalog is counted, as one for the store or as one that the
-- cache could answer.
theorem asked_parent (h : c.Faithful a) (table : String) (id : RowId) :
    (c.parent a table id).2.fetches + (c.parent a table id).2.hits =
      c.fetches + c.hits + if a.catalog.Knows table then 1 else 0 := by
  obtain ⟨slot, hs, rfl, e⟩ | e := c.parent_cases a table id
  · rw [e, if_pos (Archive.parent_eq_ok_iff.mp (h table slot hs)).1]
    exact (Nat.add_assoc ..).symm
  · rw [e]
    exact c.asked_fetch a table id

-- A slot is evicted before the store is asked, so that a failure leaves none.
theorem slot?_fetch_of_error {cause : ParentError} (h : (c.fetch a table id).1 = .error cause) :
    (c.fetch a table id).2.slot? table = none := by
  have he : (c.evict table).slot? table = none := by rw [slot?_evict, if_pos rfl]
  rw [fetch] at h ⊢
  cases ht : a.catalog.table table <;> simp only [ht] at h ⊢
  case error => exact he
  case ok t =>
    cases hr : a.store.find? t.name id <;> simp only [hr] at h ⊢
    case none => exact he
    case some => cases h

theorem slot?_parent_of_error {cause : ParentError} (h : (c.parent a table id).1 = .error cause) :
    (c.parent a table id).2.slot? table = none := by
  obtain ⟨slot, _, _, e⟩ | e := c.parent_cases a table id
  · rw [e] at h
    cases h
  · rw [e] at h ⊢
    exact slot?_fetch_of_error h

theorem slot?_of_rowUpdated {row : Row} {slot : Slot}
    (h : (c.rowUpdated row).slot? table = some slot) :
    c.slot? table = some slot ∧ ¬ (row.table.name = table ∧ slot.id = row.id) := by
  rw [rowUpdated] at h
  cases hs : c.slot? row.table.name <;> simp only [hs] at h
  case none =>
    refine ⟨h, ?_⟩
    rintro ⟨rfl, -⟩
    cases hs.symm.trans h
  case some held =>
    split at h
    case isFalse hne =>
      refine ⟨h, ?_⟩
      rintro ⟨rfl, e⟩
      cases hs.symm.trans h
      exact hne e
    case isTrue =>
      rw [slot?_evict] at h
      split at h
      case isTrue      => cases h
      case isFalse hne => exact ⟨h, fun hk => hne hk.1⟩

theorem asked_rowUpdated (c : ParentCache) (row : Row) :
    (c.rowUpdated row).fetches + (c.rowUpdated row).hits = c.fetches + c.hits := by
  rw [rowUpdated]
  split
  case h_2 => rfl
  case h_1 =>
    split
    case isTrue  => rfl
    case isFalse => rfl

-- A cache that hears of a changed row is right about all that has not changed otherwise.
theorem Faithful.rowUpdated {b : Archive} {row : Row} (h : c.Faithful a)
    (hb : ∀ table id, ¬ (row.table.name = table ∧ id = row.id) →
      b.parent table id = a.parent table id) : (c.rowUpdated row).Faithful b := by
  intro table slot hs
  have ⟨hs, hne⟩ := slot?_of_rowUpdated hs
  rw [hb table slot.id hne]
  exact h table slot hs

end ParentCache

-- What a computation gives if it starts without any cached parent.
def fresh {α : Type} (m : StateM ParentCache α) : α :=
  (m.run {}).1

-- A computation that gives the same with every faithful cache, and leaves such a cache behind.
def Steady {α : Type} (a : Archive) (m : StateM ParentCache α) : Prop :=
  ∀ c, c.Faithful a → (m.run c).1 = fresh m ∧ (m.run c).2.Faithful a

namespace Steady

variable {α β ε : Type} {m : StateM ParentCache α} {f : α → StateM ParentCache β}

theorem of_eq {v : α} (h : ∀ c, c.Faithful a → (m.run c).1 = v ∧ (m.run c).2.Faithful a) :
    Steady a m := by
  intro c hc
  have hv : fresh m = v := (h {} .empty).1
  exact hv ▸ h c hc

theorem pure (v : α) : Steady a (Pure.pure v : StateM ParentCache α) :=
  fun _ hc => ⟨rfl, hc⟩

theorem bind_fresh (hm : Steady a m) (hf : Steady a (f (fresh m))) (c : ParentCache)
    (hc : c.Faithful a) :
    ((m >>= f).run c).1 = fresh (f (fresh m)) ∧ ((m >>= f).run c).2.Faithful a := by
  have ⟨h₁, h₂⟩ := hm c hc
  have h := hf _ h₂
  rwa [← h₁] at h ⊢

theorem fresh_bind (hm : Steady a m) (hf : ∀ v, Steady a (f v)) :
    fresh (m >>= f) = fresh (f (fresh m)) :=
  (hm.bind_fresh (hf _) {} .empty).1

theorem bind (hm : Steady a m) (hf : ∀ v, Steady a (f v)) : Steady a (m >>= f) :=
  of_eq (hm.bind_fresh (hf _))

end Steady

end ReportExchange
