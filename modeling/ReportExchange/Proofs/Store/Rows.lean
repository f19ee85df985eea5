import Mathlib.Algebra.BigOperators.Group.List.Basic
import Mathlib.Algebra.Ring.Nat
import ReportExchange.Proofs.Lookup
import ReportExchange.Store.Basic

namespace ReportExchange

theorem Shelf.ids_nodup (s : Shelf) : (s.rows.map (·.id)).Nodup := by
  refine List.pairwise_map.mpr (s.ascending.imp fun {a b} h e => ?_)
  rw [e] at h
  exact Int64.lt_irrefl h

namespace Store

variable {s : Store} {table : String} {r : Row}

theorem rows_cons (shelf : Shelf) (shelves : List Shelf) (n : Int64) (table : String) :
    rows ⟨shelf :: shelves, n⟩ table =
      if shelf.table = table then shelf.rows else rows ⟨shelves, n⟩ table := by
  rw [rows, List.find?_cons]
  by_cases h : shelf.table = table <;> simp [h, rows]

theorem ids_nodup (s : Store) (table : String) : ((s.rows table).map (·.id)).Nodup := by
  rw [rows]
  split
  case h_1 shelf _ => exact shelf.ids_nodup
  case h_2         => exact List.nodup_nil

theorem table_of_mem_rows (h : r ∈ s.rows table) : r.table.name = table := by
  rw [rows] at h
  split at h
  case h_1 shelf hs =>
    have ht := List.find?_some hs
    exact (shelf.homed r h).trans (of_decide_eq_true ht)
  case h_2 => cases h

theorem find?_eq_some_of_mem (h : r ∈ s.rows table) : s.find? table r.id = some r :=
  find?_key_eq_some (s.ids_nodup table) h

theorem id_of_find? {id : RowId} (h : s.find? table id = some r) : r.id = id :=
  of_decide_eq_true (List.find?_some (p := fun r : Row => r.id = id) h)

theorem mem_rows_of_mem_childrenOf {parent : String} {id : RowId}
    (h : r ∈ s.childrenOf table parent id) : r ∈ s.rows table :=
  (List.mem_filter.mp h).1

theorem rows_ascending (s : Store) (table : String) :
    (s.rows table).Pairwise fun r t => r.id.val < t.id.val := by
  rw [rows]
  split
  case h_1 shelf _ => exact shelf.ascending
  case h_2         => exact .nil

theorem childrenOf_ascending (s : Store) (table parent : String) (id : RowId) :
    (s.childrenOf table parent id).Pairwise fun r t => r.id.val < t.id.val :=
  (s.rows_ascending table).filter _

theorem length_place {row : Row} {rows : List Row}
    (h : rows.Pairwise fun r t => r.id.val < t.id.val) :
    (Shelf.place row rows).length =
      if (rows.find? (·.id = row.id)).isSome then rows.length else rows.length + 1 := by
  induction rows
  case nil => rfl
  case cons r rows hi =>
    have ⟨hr, hs⟩ := List.pairwise_cons.mp h
    rw [Shelf.place, List.find?_cons]
    split
    case isTrue hlt =>
      -- No row has the identity, as all of them have greater ones.
      have hn : ∀ t ∈ r :: rows, t.id ≠ row.id := by
        rintro t ht e
        obtain rfl | ht := List.mem_cons.mp ht
        case inl => exact Int64.lt_irrefl (e ▸ hlt)
        case inr => exact Int64.lt_irrefl (e ▸ Int64.lt_trans hlt (hr t ht))
      have hf : rows.find? (·.id = row.id) = none :=
        List.find?_eq_none.mpr fun t ht => by simpa using hn t (List.mem_cons_of_mem _ ht)
      simp [hn r List.mem_cons_self, hf]
    case isFalse =>
      split
      case isTrue e  => simp [e]
      case isFalse e =>
        rw [List.length_cons, hi hs]
        simp only [Ne.symm e, decide_false]
        split <;> rfl

theorem size_shelve (row : Row) (shelves : List Shelf) (n : Int64) :
    size ⟨shelve row shelves, n⟩ =
      if (find? ⟨shelves, n⟩ row.table.name row.id).isSome then size ⟨shelves, n⟩
      else size ⟨shelves, n⟩ + 1 := by
  induction shelves
  case nil => rfl
  case cons shelf shelves hi =>
    rw [find?, rows_cons, shelve]
    by_cases e : row.table.name = shelf.table
    case pos =>
      rw [dif_pos e, if_pos e.symm]
      simp only [size, List.foldr_cons, Shelf.insert, length_place shelf.ascending]
      split <;> omega
    case neg =>
      rw [dif_neg e, if_neg (Ne.symm e)]
      simp only [size, find?, List.foldr_cons] at hi ⊢
      rw [hi]
      exact apply_ite (shelf.rows.length + ·) _ _ _

-- A store grows with a row that is added, unless the row takes the place of another.
theorem size_add {s' : Store} {row : Row} {id : RowId} (h : s.add row = some (id, s')) :
    s'.size = if (s.find? row.table.name id).isSome then s.size else s.size + 1 := by
  obtain ⟨-, -, rfl⟩ := add_eq_some_iff.mp h
  exact size_shelve (row.withId id) s.shelves _

-- What is found after a row has been replaced.
theorem find?_update (s : Store) (row : Row) (table : String) (id : RowId) :
    (s.update row).2.find? table id =
      if row.table.name = table ∧ row.id = id ∧ (s.find? table id).isSome then some row
      else s.find? table id := by
  by_cases hk : row.table.name = table ∧ row.id = id
  case pos =>
    obtain ⟨rfl, rfl⟩ := hk
    by_cases hs : (s.find? row.table.name row.id).isSome
    case neg => simp [update, hs]
    case pos =>
      simp only [update, hs, if_true, and_self]
      rw [find?, rows_shelve, if_pos rfl, Shelf.find?_place, if_pos rfl]
  case neg =>
    rw [if_neg fun h => hk ⟨h.1, h.2.1⟩, update]
    split
    case isFalse => rfl
    case isTrue  =>
      simp only [find?, rows_shelve]
      split
      case isFalse => rfl
      case isTrue e =>
        rw [Shelf.find?_place, if_neg fun hi => hk ⟨e, hi⟩]

theorem rows_erase (shelves : List Shelf) (n : Int64) (table : String) (id : RowId) (t : String) :
    rows ⟨shelves.map fun shelf => if shelf.table = table then shelf.erase id else shelf, n⟩ t =
      if table = t then (rows ⟨shelves, n⟩ t).filter (·.id ≠ id) else rows ⟨shelves, n⟩ t := by
  induction shelves
  case nil => simp [rows]
  case cons shelf shelves hi =>
    rw [List.map_cons, rows_cons, rows_cons, hi]
    by_cases ht : shelf.table = table
    case neg =>
      rw [if_neg ht]
      by_cases e : shelf.table = t
      case neg => simp [e]
      case pos => simp [e, show ¬ table = t from fun e' => ht (e.trans e'.symm)]
    case pos =>
      subst ht
      rw [if_pos rfl]
      by_cases e : shelf.table = t <;> simp [Shelf.erase, e]

-- What is found after a row has been deleted.
theorem find?_delete (s : Store) (table : String) (id : RowId) (t : String) (i : RowId) :
    (s.delete table id).2.find? t i =
      if table = t ∧ id = i then none else s.find? t i := by
  rw [delete]
  split
  case isFalse hn =>
    split
    case isFalse => rfl
    case isTrue e =>
      obtain ⟨rfl, rfl⟩ := e
      exact Option.not_isSome_iff_eq_none.mp hn
  case isTrue =>
    simp only [find?, rows_erase]
    by_cases ht : table = t
    case neg => simp [ht, rows]
    case pos =>
      subst ht
      simp only [if_true, true_and, List.find?_filter]
      by_cases hi : id = i
      case pos => simp [hi]
      case neg =>
        rw [if_neg hi]
        congr 1
        funext r
        by_cases hr : r.id = i <;> simp [hr, Ne.symm hi]

theorem length_childrenOf_le (parent : String) (id : RowId) :
    (s.childrenOf table parent id).length ≤ (s.rows table).length :=
  List.length_filter_le _ _

-- A table that is looked at once counts for its own shelf only.
theorem sum_ite_le {names : List String} (hn : names.Nodup) (table : String) (x : Nat)
    (f : String → Nat) :
    (names.map fun name => if table = name then x else f name).sum ≤ x + (names.map f).sum := by
  induction names
  case nil => exact Nat.zero_le _
  case cons name names hi =>
    have ⟨hm, hn⟩ := List.nodup_cons.mp hn
    simp only [List.map_cons, List.sum_cons]
    split
    case isFalse =>
      have := hi hn
      omega
    case isTrue e =>
      have he : (names.map fun name => if table = name then x else f name) = names.map f := by
        refine List.map_congr_left fun y hy => if_neg fun e' => hm ?_
        rwa [← e, e']
      rw [he]
      omega

theorem sum_rows_le_size {names : List String} (hn : names.Nodup) :
    (names.map fun name => (s.rows name).length).sum ≤ s.size := by
  have ⟨shelves, n⟩ := s
  induction shelves
  case nil => simp [rows, size]
  case cons shelf shelves hi =>
    have hs := sum_ite_le hn shelf.table shelf.rows.length
      fun name => (rows ⟨shelves, n⟩ name).length
    have he : (names.map fun name => (rows ⟨shelf :: shelves, n⟩ name).length) =
        names.map fun name =>
          if shelf.table = name then shelf.rows.length else (rows ⟨shelves, n⟩ name).length := by
      refine List.map_congr_left fun name _ => ?_
      rw [rows_cons]
      split <;> rfl
    have hz : size ⟨shelf :: shelves, n⟩ = shelf.rows.length + size ⟨shelves, n⟩ := by
      simp [size]
    rw [he, hz]
    omega

-- Two stores whose tables hold rows that match, in the same order.
def Matches (s : Store) (R : Row → Row → Prop) (s' : Store) : Prop :=
  ∀ table, List.Forall₂ R (s.rows table) (s'.rows table)

theorem matches_of_shelves {R : Row → Row → Prop} {s' : Store}
    (h : List.Forall₂ (fun x y => y.table = x.table ∧ List.Forall₂ R x.rows y.rows)
      s.shelves s'.shelves) : s.Matches R s' := by
  intro table
  have hf := find?_forall₂ (p := (·.table = table)) (q := (·.table = table)) h
    fun _ _ hr => by rw [hr.1]
  simp only [rows]
  generalize s.shelves.find? (·.table = table) = x at hf ⊢
  generalize s'.shelves.find? (·.table = table) = y at hf ⊢
  cases hf
  case some hr => exact hr.2
  case none    => exact .nil

theorem Matches.find? {R : Row → Row → Prop} {s' : Store} (h : s.Matches R s')
    (hi : ∀ r r', R r r' → r'.id = r.id) (table : String) (id : RowId) :
    Option.Rel R (s.find? table id) (s'.find? table id) :=
  find?_forall₂ (h table) fun r r' hr => by rw [hi r r' hr]

end Store

end ReportExchange
