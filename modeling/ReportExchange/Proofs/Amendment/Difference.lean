import Mathlib.Data.List.Nodup
import ReportExchange.Amendment.Difference
import ReportExchange.Proofs.Amendment.Comparison
import ReportExchange.Proofs.Intake.Calls
import ReportExchange.Proofs.Intake.Outline

namespace ReportExchange

open Text Comparison Grammar

namespace Difference

variable {old new rows amendments : List Comparison} {c d : Comparison} {a : AmendmentType}

-- Rows that all have an identity, each one of its own.
structure Keyed (rows : List Comparison) : Prop where
  ids   : ∀ c ∈ rows, c.rowId ≠ none
  nodup : (rows.map (·.rowId)).Nodup

-- A document that is read for comparison without an error, and its rows.
def IsParsed (document : List UInt8) (rows : List Comparison) : Prop :=
  ∃ given p, (Parser.ofBytes document).all Comparison.assembler = (given, none, p) ∧
    given.map (·.1) = rows

def Differs (c d : Comparison) : Prop :=
  c.nullified ≠ d.nullified ∨ c.content ≠ d.content

-- What the amendments between two versions are: rows of the new version that are added or modified, in
-- its order, then rows of the old version that are deleted, in its order, and none of them twice.
structure IsDifference (old new amendments : List Comparison) : Prop where
  mem_iff : ∀ c, c ∈ amendments ↔
    (∃ row ∈ new, row.rowId ∉ old.map (·.rowId) ∧ c = marked .added row) ∨
    (∃ row ∈ new, (∃ previous ∈ old, previous.rowId = row.rowId ∧ Differs previous row) ∧
      c = marked .modified row) ∨
    ∃ row ∈ old, row.rowId ∉ new.map (·.rowId) ∧ c = marked .deleted row
  order : ∃ changed removed, amendments = changed ++ removed ∧
    (changed.map (·.rowId)).Sublist (new.map (·.rowId)) ∧
    (∀ c ∈ changed, c.amendment ≠ some .deleted) ∧
    (removed.map (·.rowId)).Sublist (old.map (·.rowId)) ∧
    ∀ c ∈ removed, c.amendment = some .deleted
  nodup : (amendments.map (·.rowId)).Nodup

section Keys

theorem Keyed.eq (h : Keyed rows) (hc : c ∈ rows) (hd : d ∈ rows) (he : c.rowId = d.rowId) :
    c = d :=
  List.inj_on_of_nodup_map h.nodup hc hd he

theorem getD_rowId_eq_iff (hc : c.rowId ≠ none) (hd : d.rowId ≠ none) :
    c.rowId.getD "" = d.rowId.getD "" ↔ c.rowId = d.rowId := by
  obtain ⟨x, hx⟩ := Option.ne_none_iff_exists'.mp hc
  obtain ⟨y, hy⟩ := Option.ne_none_iff_exists'.mp hd
  simp [hx, hy]

def byId (rows : List Comparison) : List (String × Comparison) :=
  rows.map fun c => (c.rowId.getD "", c)

theorem identify_eq (seen : List String) {given : List (Comparison × Nat)}
    (h : Keyed (given.map (·.1))) (hs : ∀ id ∈ seen, some id ∉ (given.map (·.1)).map (·.rowId)) :
    identify seen given = .ok (byId (given.map (·.1))) := by
  induction given generalizing seen
  case nil => rfl
  case cons g given hi =>
    obtain ⟨row, position⟩ := g
    obtain ⟨id, hid⟩ := Option.ne_none_iff_exists'.mp (h.ids row List.mem_cons_self)
    have hn := List.nodup_cons.mp h.nodup
    have hseen : id ∉ seen := fun hm => hs id hm (hid ▸ List.mem_cons_self)
    have htail : Keyed (given.map (·.1)) :=
      ⟨fun c hc => h.ids c (List.mem_cons_of_mem _ hc), hn.2⟩
    have hrest : ∀ x ∈ id :: seen, some x ∉ (given.map (·.1)).map (·.rowId) :=
      List.forall_mem_cons.mpr ⟨hid ▸ hn.1, fun x hx hm => hs x hx (List.mem_cons_of_mem _ hm)⟩
    rw [identify]
    simp only [hid, hseen, if_false, hi _ htail hrest]
    simp [byId, hid, Except.map]

theorem rowsOf_eq {document : List UInt8} (h : IsParsed document rows) (hk : Keyed rows) :
    rowsOf (Xml.readings document) = .ok (byId rows) := by
  obtain ⟨given, p, hall, rfl⟩ := h
  have hall : (Parser.ofReadings (Xml.readings document)).all Comparison.assembler =
      (given, none, p) := hall
  rw [rowsOf, hall]
  simp only [identify_eq [] hk (by simp)]

theorem diff_eq {oldDocument newDocument : List UInt8} (ho : IsParsed oldDocument old)
    (hn : IsParsed newDocument new) (ko : Keyed old) (kn : Keyed new) :
    diff oldDocument newDocument = .ok (between (byId old) (byId new)) := by
  rw [diff, ofReadings, rowsOf_eq ho ko, rowsOf_eq hn kn]
  rfl

end Keys

section Between

theorem sameContent_eq_false_iff : d.sameContent c = false ↔ Differs d c := by
  rw [sameContent, Differs, Bool.and_eq_false_iff, decide_eq_false_iff_not, decide_eq_false_iff_not]

-- The rows of the new version that are among the amendments, and those of the old one.
def changed (old new : List Comparison) : List Comparison :=
  new.filterMap fun row =>
    (amendmentOf (byId old) (row.rowId.getD "") row).map fun a => marked a row

def removed (old new : List Comparison) : List Comparison :=
  (old.filter fun row => row.rowId ∉ new.map (·.rowId)).map (marked .deleted)

theorem amendmentOf_eq_some_iff (ho : Keyed old) (hc : c.rowId ≠ none) :
    amendmentOf (byId old) (c.rowId.getD "") c = some a ↔
      a = .added ∧ c.rowId ∉ old.map (·.rowId) ∨
        a = .modified ∧ ∃ previous ∈ old, previous.rowId = c.rowId ∧ Differs previous c := by
  rw [amendmentOf]
  split
  case h_1 hf =>
    have hnone : c.rowId ∉ old.map (·.rowId) := by
      intro hm
      obtain ⟨d, hd, he⟩ := List.mem_map.mp hm
      have hne := List.find?_eq_none.mp hf _ (List.mem_map_of_mem hd)
      simp [he] at hne
    have hno : ¬∃ previous ∈ old, previous.rowId = c.rowId ∧ Differs previous c :=
      fun ⟨d, hd, he, _⟩ => hnone (he ▸ List.mem_map_of_mem hd)
    simp only [hnone, hno, and_false, or_false, not_false_iff, and_true, Option.some.injEq]
    exact eq_comm
  case h_2 found hf =>
    obtain ⟨d, hd, rfl⟩ := List.mem_map.mp (List.mem_of_find?_eq_some hf)
    have hkey := List.find?_some hf
    have he : d.rowId = c.rowId :=
      (getD_rowId_eq_iff (ho.ids d hd) hc).mp (of_decide_eq_true hkey)
    have hmem : c.rowId ∈ old.map (·.rowId) := he ▸ List.mem_map_of_mem hd
    have honly : (∃ previous ∈ old, previous.rowId = c.rowId ∧ Differs previous c) ↔
        Differs d c := by
      constructor
      case mp =>
        rintro ⟨e, hm, hid, hdiff⟩
        exact ho.eq hm hd (hid.trans he.symm) ▸ hdiff
      case mpr => exact fun hdiff => ⟨d, hd, he, hdiff⟩
    rw [honly, ← sameContent_eq_false_iff]
    by_cases hs : d.sameContent c <;> simp [hs, hmem, eq_comm]

theorem mem_changed_iff (ho : Keyed old) (hn : Keyed new) :
    c ∈ changed old new ↔
      (∃ row ∈ new, row.rowId ∉ old.map (·.rowId) ∧ c = marked .added row) ∨
      ∃ row ∈ new, (∃ previous ∈ old, previous.rowId = row.rowId ∧ Differs previous row) ∧
        c = marked .modified row := by
  rw [changed, List.mem_filterMap]
  constructor
  case mp =>
    rintro ⟨row, hrow, h⟩
    obtain ⟨a, ha, rfl⟩ := Option.map_eq_some_iff.mp h
    obtain ⟨rfl, hnew⟩ | ⟨rfl, hold⟩ := (amendmentOf_eq_some_iff ho (hn.ids row hrow)).mp ha
    case inl => exact .inl ⟨row, hrow, hnew, rfl⟩
    case inr => exact .inr ⟨row, hrow, hold, rfl⟩
  case mpr =>
    rintro (⟨row, hrow, hnew, rfl⟩ | ⟨row, hrow, hold, rfl⟩)
    all_goals refine ⟨row, hrow, Option.map_eq_some_iff.mpr ⟨_, ?_, rfl⟩⟩
    case inl => exact (amendmentOf_eq_some_iff ho (hn.ids row hrow)).mpr (.inl ⟨rfl, hnew⟩)
    case inr => exact (amendmentOf_eq_some_iff ho (hn.ids row hrow)).mpr (.inr ⟨rfl, hold⟩)

theorem mem_removed_iff :
    c ∈ removed old new ↔
      ∃ row ∈ old, row.rowId ∉ new.map (·.rowId) ∧ c = marked .deleted row := by
  rw [removed, List.mem_map]
  constructor
  case mp =>
    rintro ⟨row, hrow, rfl⟩
    obtain ⟨hold, hgone⟩ := List.mem_filter.mp hrow
    exact ⟨row, hold, of_decide_eq_true hgone, rfl⟩
  case mpr =>
    rintro ⟨row, hold, hgone, rfl⟩
    exact ⟨row, List.mem_filter.mpr ⟨hold, decide_eq_true hgone⟩, rfl⟩

theorem any_byId_iff (hn : Keyed new) (hc : c.rowId ≠ none) :
    (byId new).any (·.1 = c.rowId.getD "") ↔ c.rowId ∈ new.map (·.rowId) := by
  rw [List.any_eq_true, List.mem_map, byId]
  constructor
  case mp =>
    rintro ⟨_, hm, he⟩
    obtain ⟨d, hd, rfl⟩ := List.mem_map.mp hm
    exact ⟨d, hd, (getD_rowId_eq_iff (hn.ids d hd) hc).mp (of_decide_eq_true he)⟩
  case mpr =>
    rintro ⟨d, hd, he⟩
    exact ⟨_, List.mem_map_of_mem hd, by simp [he]⟩

theorem between_byId (ho : Keyed old) (hn : Keyed new) :
    between (byId old) (byId new) = changed old new ++ removed old new := by
  have hgone : ∀ row ∈ old, (!(byId new).any (·.1 = row.rowId.getD "")) =
      decide (row.rowId ∉ new.map (·.rowId)) := by
    intro row hrow
    rw [decide_not, ← Bool.decide_coe ((byId new).any _)]
    simp only [any_byId_iff hn (ho.ids row hrow)]
  rw [between, removed, ← List.filter_congr hgone]
  simp only [byId, changed, List.filterMap_map, List.filter_map, List.map_map]
  rfl

theorem rowId_changed_sublist (old new : List Comparison) :
    ((changed old new).map (·.rowId)).Sublist (new.map (·.rowId)) := by
  refine sublist_map_filterMap new fun row c hc => ?_
  obtain ⟨_, _, rfl⟩ := Option.map_eq_some_iff.mp hc
  rfl

theorem rowId_removed (old new : List Comparison) :
    (removed old new).map (·.rowId) =
      (old.filter fun row => row.rowId ∉ new.map (·.rowId)).map (·.rowId) := by
  rw [removed, List.map_map]
  rfl

theorem rowId_removed_sublist (old new : List Comparison) :
    ((removed old new).map (·.rowId)).Sublist (old.map (·.rowId)) :=
  rowId_removed old new ▸ List.filter_sublist.map _

theorem isDifference_between (ho : Keyed old) (hn : Keyed new) :
    IsDifference old new (between (byId old) (byId new)) := by
  rw [between_byId ho hn]
  constructor
  case mem_iff =>
    intro c
    rw [List.mem_append, mem_changed_iff ho hn, mem_removed_iff, or_assoc]
  case order =>
    refine ⟨_, _, rfl, rowId_changed_sublist old new, fun c hc => ?_,
      rowId_removed_sublist old new, fun c hc => ?_⟩
    case refine_1 =>
      obtain ⟨_, _, _, rfl⟩ | ⟨_, _, _, rfl⟩ := (mem_changed_iff ho hn).mp hc <;> simp [marked]
    case refine_2 =>
      obtain ⟨_, _, _, rfl⟩ := mem_removed_iff.mp hc
      rfl
  case nodup =>
    rw [List.map_append]
    refine List.Nodup.append (hn.nodup.sublist (rowId_changed_sublist old new))
      (ho.nodup.sublist (rowId_removed_sublist old new)) fun id hchanged hgone => ?_
    obtain ⟨c, hc, rfl⟩ := List.mem_map.mp hgone
    obtain ⟨row, _, hmissing, rfl⟩ := mem_removed_iff.mp hc
    exact hmissing ((rowId_changed_sublist old new).subset hchanged)

end Between

end Difference

end ReportExchange
