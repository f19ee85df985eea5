import ReportExchange.Catalog.Basic
import ReportExchange.Proofs.Identity
import ReportExchange.Proofs.Store.Rows

namespace ReportExchange

namespace RowId

def secondLast : RowId :=
  ⟨Int64.maxValue - 1⟩

-- The first positive number above all the identities.
def above (seen : List RowId) : Int :=
  seen.foldr (fun id n => max (id.val.toInt + 1) n) 1

-- The identity of a row that is stored after others: its own, if it has one.
def assigned (seen : List RowId) (id : RowId) : RowId :=
  if id.isSet then id else ⟨Int64.ofInt (above seen)⟩

variable {id : RowId} {seen : List RowId}

theorem toInt_last : last.val.toInt = 2 ^ 63 - 1 :=
  Int64.toInt_maxValue

theorem toInt_secondLast : secondLast.val.toInt = 2 ^ 63 - 2 := by
  decide

theorem toInt_lt_last (h : id ≠ last) : id.val.toInt < 2 ^ 63 - 1 := by
  have hb := Int64.toInt_lt id.val
  have hn := mt toInt_inj.mp h
  rw [toInt_last] at hn
  omega

-- The number after an identity is the next one, unless there is none.
theorem toInt_succ (h : id ≠ last) : (id.val + 1).toInt = id.val.toInt + 1 := by
  have hb := toInt_lt_last h
  have hl := Int64.le_toInt id.val
  rw [Int64.toInt_add, Int64.toInt_one]
  refine Int.bmod_eq_of_le ?_ ?_ <;> simp <;> omega

theorem above_cons (id : RowId) (seen : List RowId) :
    above (id :: seen) = max (id.val.toInt + 1) (above seen) :=
  rfl

theorem above_le_iff {n : Int} : above seen ≤ n ↔ 1 ≤ n ∧ ∀ id ∈ seen, id.val.toInt < n := by
  induction seen
  case nil => simp [above]
  case cons id seen hi =>
    rw [above_cons, List.forall_mem_cons, Int.max_le, hi, Int.add_one_le_iff, and_left_comm]

theorem one_le_above (seen : List RowId) : 1 ≤ above seen :=
  (above_le_iff.mp (Int.le_refl _)).1

theorem toInt_lt_above (h : id ∈ seen) : id.val.toInt < above seen :=
  (above_le_iff.mp (Int.le_refl _)).2 id h

section Unended

variable (hl : last ∉ seen)

include hl

theorem above_le_last : above seen ≤ 2 ^ 63 - 1 :=
  above_le_iff.mpr ⟨by decide, fun _ h => toInt_lt_last fun e => hl (e ▸ h)⟩

-- The counter has come to its end as soon as the identity before the last has been seen.
theorem above_eq_last_iff : above seen = 2 ^ 63 - 1 ↔ secondLast ∈ seen := by
  constructor
  case mp =>
    intro h
    by_contra hn
    have hle : above seen ≤ 2 ^ 63 - 2 := by
      refine above_le_iff.mpr ⟨by decide, fun id hm => ?_⟩
      have hne : id.val.toInt ≠ 2 ^ 63 - 2 := fun e => by
        rw [← toInt_secondLast, toInt_inj] at e
        exact hn (e ▸ hm)
      have hb := toInt_lt_last fun e : id = last => hl (e ▸ hm)
      omega
    omega
  case mpr =>
    intro h
    have hb := toInt_lt_above h
    have hle := above_le_last hl
    rw [toInt_secondLast] at hb
    omega

theorem toInt_assigned (h : ¬ id.isSet) : (assigned seen id).val.toInt = above seen := by
  rw [assigned, if_neg h]
  have hle := above_le_last hl
  have hge := one_le_above seen
  exact Int64.toInt_ofInt_of_le (by omega) (by omega)

theorem isSet_assigned (h : ¬ id.isSet) : (assigned seen id).isSet := by
  have hge := one_le_above seen
  rw [isSet, decide_eq_true_iff, Int64.le_iff_toInt_le, toInt_assigned hl h, Int64.toInt_zero]
  omega

theorem assigned_eq_last_iff (h : ¬ id.isSet) : assigned seen id = last ↔ secondLast ∈ seen := by
  rw [← toInt_inj, toInt_assigned hl h, toInt_last, above_eq_last_iff hl]

-- What has been seen is never handed out again.
theorem assigned_not_mem (h : ¬ id.isSet) : assigned seen id ∉ seen := by
  intro hm
  have hlt := toInt_lt_above hm
  rw [toInt_assigned hl h] at hlt
  exact Int.lt_irrefl _ hlt

end Unended

end RowId

namespace Store

variable {s s' : Store} {row r : Row} {table : String} {id : RowId} {seen : List RowId}

theorem mem_rows_iff_find? : r ∈ s.rows table ↔ s.find? table r.id = some r :=
  ⟨find?_eq_some_of_mem, List.mem_of_find?_eq_some⟩

-- A row that is added takes the place of the one that is found under its identity, if there is one.
theorem mem_rows_add (h : s.add row = some (id, s')) : r ∈ s'.rows table ↔
    (table = row.table.name ∧ r = row.withId id) ∨
      (r ∈ s.rows table ∧ ¬ (table = row.table.name ∧ r.id = id)) := by
  rw [mem_rows_iff_find?, find?_add h]
  by_cases hk : row.table.name = table ∧ id = r.id
  case neg =>
    rw [if_neg hk, ← mem_rows_iff_find?]
    have hk' : ¬ (table = row.table.name ∧ r.id = id) := fun h => hk ⟨h.1.symm, h.2.symm⟩
    have hr : ¬ (table = row.table.name ∧ r = row.withId id) := by
      rintro ⟨ht, e⟩
      exact hk' ⟨ht, e ▸ rfl⟩
    simp [hk', hr]
  case pos =>
    obtain ⟨rfl, rfl⟩ := hk
    rw [if_pos ⟨rfl, rfl⟩, Option.some.injEq, or_iff_left fun hm => hm.2 ⟨rfl, rfl⟩,
      and_iff_right rfl, eq_comm]

-- What a store knows of the identities that it has seen: its counter is above them, and whatever is
-- stored is stored under one of them. The last identity is none of them.
structure Counts (s : Store) (seen : List RowId) : Prop where
  next   : max s.nextId.toInt 1 = RowId.above seen
  stored : ∀ table, ∀ r ∈ s.rows table, r.id ∈ seen
  last   : RowId.last ∉ seen

namespace Counts

theorem empty : Counts {} [] where
  next   := rfl
  stored _ _ h := by cases h
  last   := List.not_mem_nil

variable (h : s.Counts seen)

include h

theorem identityFor_eq (row : Row) : s.identityFor row = RowId.assigned seen row.id := by
  rw [identityFor]
  by_cases hs : row.id.isSet
  case pos => rw [if_pos hs, RowId.assigned, if_pos hs]
  case neg =>
    rw [if_neg hs, ← RowId.toInt_inj, RowId.toInt_assigned h.last hs, ← h.next]
    have hone : (1 : Int64).toInt = 1 := rfl
    split
    case isTrue hn =>
      rw [Int64.lt_iff_toInt_lt, hone] at hn
      rw [hone]
      omega
    case isFalse hn =>
      rw [Int64.lt_iff_toInt_lt, hone] at hn
      dsimp only
      omega

theorem add (ha : s.add row = some (id, s')) : s'.Counts (id :: seen) := by
  have ⟨_, hl, hs⟩ := add_eq_some_iff.mp ha
  refine ⟨?_, fun table r hr => ?_, ?_⟩
  case refine_1 =>
    have hn : s'.nextId = if s.nextId < id.val + 1 then id.val + 1 else s.nextId := hs ▸ rfl
    rw [hn, RowId.above_cons, ← h.next, ← RowId.toInt_succ hl]
    have := RowId.toInt_succ hl
    split
    case isTrue hlt =>
      rw [Int64.lt_iff_toInt_lt] at hlt
      omega
    case isFalse hle =>
      rw [Int64.lt_iff_toInt_lt] at hle
      omega
  case refine_2 =>
    obtain ⟨_, rfl⟩ | ⟨hr, _⟩ := (mem_rows_add ha).mp hr
    case inl => exact List.mem_cons_self
    case inr => exact List.mem_cons_of_mem _ (h.stored table r hr)
  case refine_3 => exact List.not_mem_cons_of_ne_of_not_mem hl.symm h.last

theorem update (row : Row) : (s.update row).2.Counts seen := by
  rw [Store.update]
  split
  case isFalse => exact h
  case isTrue hf =>
    refine ⟨h.next, fun table r hr => ?_, h.last⟩
    rw [rows_shelve] at hr
    split at hr
    case isFalse => exact h.stored table r hr
    case isTrue  =>
      obtain rfl | hr := Shelf.mem_place hr
      case inr => exact h.stored table r hr
      case inl =>
        obtain ⟨old, ho⟩ := Option.isSome_iff_exists.mp hf
        exact id_of_find? ho ▸ h.stored _ old (List.mem_of_find?_eq_some ho)

theorem delete (table : String) (id : RowId) : (s.delete table id).2.Counts seen := by
  rw [Store.delete]
  split
  case isFalse => exact h
  case isTrue  =>
    refine ⟨h.next, fun t r hr => ?_, h.last⟩
    rw [rows_erase] at hr
    split at hr
    case isFalse => exact h.stored t r hr
    case isTrue  => exact h.stored t r (List.mem_filter.mp hr).1

end Counts

-- What has been done to a store from the beginning on, with the identities under which rows have
-- been added, the latest first.
inductive History : List RowId → Store → Prop
  | empty : History [] {}
  | add {seen : List RowId} {s s' : Store} {id : RowId} (row : Row) :
    History seen s → s.add row = some (id, s') → History (id :: seen) s'
  | update {seen : List RowId} {s : Store} (row : Row) :
    History seen s → History seen (s.update row).2
  | delete {seen : List RowId} {s : Store} (table : String) (id : RowId) :
    History seen s → History seen (s.delete table id).2

theorem History.counts (h : History seen s) : s.Counts seen := by
  induction h
  case empty                => exact .empty
  case add ha hi            => exact hi.add ha
  case update row _ hi      => exact hi.update row
  case delete table id _ hi => exact hi.delete table id

-- What is stored has been given an identity, unless it came with one.
theorem isSet_of_history (h : History seen s) : ∀ id ∈ seen, id.isSet := by
  induction h
  case empty => exact nofun
  case update _ hi => exact hi
  case delete _ hi => exact hi
  case add row h ha hi =>
    refine List.forall_mem_cons.mpr ⟨?_, hi⟩
    rw [(add_eq_some_iff.mp ha).1, h.counts.identityFor_eq]
    by_cases hs : row.id.isSet
    case pos => rwa [RowId.assigned, if_pos hs]
    case neg => exact RowId.isSet_assigned h.counts.last hs

-- A row without an identity gets the first one above all that have ever been seen, after which there
-- is another number. It is a new one, and nothing else changes in the store. The row is refused if
-- and only if the identity before the last has been seen, so that only the last one is left.
theorem add_assigns_above (h : History seen s) (hr : ¬ row.id.isSet) :
    (s.add row = none ↔ RowId.secondLast ∈ seen) ∧
    ∀ id s', s.add row = some (id, s') →
      id.val.toInt = RowId.above seen ∧ (id.val + 1).toInt = id.val.toInt + 1 ∧ id ∉ seen ∧
      (∀ table, ∀ r ∈ s.rows table, r.id ≠ id) ∧
      ∀ table r, r ∈ s'.rows table ↔
        r ∈ s.rows table ∨ (table = row.table.name ∧ r = row.withId id) := by
  have hc := h.counts
  have ha := hc.identityFor_eq row
  refine ⟨?_, fun id s' hadd => ?_⟩
  case refine_1 => rw [add_eq_none_iff, ha, RowId.assigned_eq_last_iff hc.last hr]
  case refine_2 =>
    obtain ⟨hid, hl, -⟩ := add_eq_some_iff.mp hadd
    rw [ha] at hid
    have hn : id ∉ seen := hid ▸ RowId.assigned_not_mem hc.last hr
    have hne (table : String) (r : Row) (hm : r ∈ s.rows table) : r.id ≠ id :=
      fun e => hn (e ▸ hc.stored table r hm)
    refine ⟨?_, RowId.toInt_succ hl, hn, hne, fun table r => ?_⟩
    case refine_1 => rw [hid, RowId.toInt_assigned hc.last hr]
    case refine_2 =>
      rw [mem_rows_add hadd, or_comm]
      exact or_congr_left (and_iff_left_of_imp fun hm hk => hne table r hm hk.2)

-- A tray and a vial that has been deleted again, and a store that has come to its last identity.
namespace Shelves

def blank (table : String) (id : RowId) : Row :=
  (Row.blank (Catalog.assemble [] { name := table })).withId id

def holding (s : Store) (row : Row) : Store :=
  ((s.add row).map (·.2)).getD s

def trayed : Store :=
  holding (holding {} (blank "vial" ⟨5⟩)) (blank "tray" .unset)

def cleared : Store :=
  (trayed.delete "vial" ⟨5⟩).2

def ended : Store :=
  holding {} (blank "vial" RowId.secondLast)

theorem history_cleared : History [⟨6⟩, ⟨5⟩] cleared :=
  ((History.empty.add (blank "vial" ⟨5⟩) rfl).add (blank "tray" .unset) rfl).delete "vial" ⟨5⟩

theorem history_ended : History [RowId.secondLast] ended :=
  History.empty.add (blank "vial" RowId.secondLast) rfl

end Shelves

open Shelves in
theorem add_assigns_above_cleared :
    cleared.rows "vial" = [] ∧
    ∃ s, cleared.add (blank "vial" .unset) = some (⟨7⟩, s) ∧
      ∀ table r, r ∈ s.rows table ↔
        r ∈ cleared.rows table ∨ (table = "vial" ∧ r = blank "vial" ⟨7⟩) := by
  have hr : ¬ (blank "vial" .unset).id.isSet := by decide
  obtain ⟨hn, hk⟩ := add_assigns_above history_cleared hr
  have hne := mt hn.mp (by decide)
  obtain ⟨⟨id, s⟩, ha⟩ := Option.ne_none_iff_exists'.mp hne
  obtain ⟨hid, _, _, _, hrows⟩ := hk id s ha
  have h7 : id = ⟨7⟩ := by
    rw [← RowId.toInt_inj, hid]
    decide
  subst h7
  exact ⟨by decide +kernel, s, ha, hrows⟩

-- At the end of the numbers there is none to hand out, and a row without an identity is refused.
open Shelves in
theorem assigned_not_fresh :
    ¬ ∀ (seen : List RowId) (s : Store) (row : Row), History seen s → ¬ row.id.isSet →
      ∃ id s', s.add row = some (id, s') ∧ id ∉ seen ∧
        ∀ table, ∀ r ∈ s.rows table, r.id ≠ id ∧ r ∈ s'.rows table := by
  intro h
  obtain ⟨id, s', ha, _⟩ := h _ ended (blank "vial" .unset) history_ended (by decide)
  have hn : ended.add (blank "vial" .unset) = none := by decide +kernel
  exact absurd (ha.symm.trans hn) nofun

end Store

end ReportExchange
