import ReportExchange.Proofs.Amendment.Difference

namespace ReportExchange

open Text Comparison

namespace Difference

variable {old new rows amendments : List Comparison} {c d : Comparison} {a : AmendmentType}

-- What becomes of a row: the amendment of its identity takes its place, unless that deletes it.
def amended (amendments : List Comparison) (row : Comparison) : Option Comparison :=
  match amendments.find? (·.rowId = row.rowId) with
  | none   => some row
  | some a => if a.amendment = some .deleted then none else some a

-- The rows that amendments lead to. Added ones come behind the others.
def applied (amendments rows : List Comparison) : List Comparison :=
  rows.filterMap (amended amendments) ++ amendments.filter (·.amendment = some .added)

-- Which identities there are amendments for, and of which kind.
def Amends (old new : List Comparison) (id : Option String) : AmendmentType → Prop
  | .added    => id ∉ old.map (·.rowId) ∧ id ∈ new.map (·.rowId)
  | .modified => ∃ c ∈ old, ∃ d ∈ new, c.rowId = id ∧ d.rowId = id ∧ Differs c d
  | .deleted  => id ∈ old.map (·.rowId) ∧ id ∉ new.map (·.rowId)

def reversed : AmendmentType → AmendmentType
  | .added    => .deleted
  | .modified => .modified
  | .deleted  => .added

-- The identities that there are amendments for, each with its kind.
def marks (amendments : List Comparison) : List (Option String × Option AmendmentType) :=
  amendments.map fun c => (c.rowId, c.amendment)

namespace IsDifference

variable (h : IsDifference old new amendments)

include h

theorem added_mem (hd : d ∈ new) (hid : d.rowId ∉ old.map (·.rowId)) :
    marked .added d ∈ amendments :=
  (h.mem_iff _).mpr (.inl ⟨d, hd, hid, rfl⟩)

theorem modified_mem (hc : c ∈ old) (hd : d ∈ new) (hid : c.rowId = d.rowId) (hne : Differs c d) :
    marked .modified d ∈ amendments :=
  (h.mem_iff _).mpr (.inr (.inl ⟨d, hd, ⟨c, hc, hid, hne⟩, rfl⟩))

theorem deleted_mem (hc : c ∈ old) (hid : c.rowId ∉ new.map (·.rowId)) :
    marked .deleted c ∈ amendments :=
  (h.mem_iff _).mpr (.inr (.inr ⟨c, hc, hid, rfl⟩))

theorem amends_iff {id : Option String} {x : Option AmendmentType} :
    (id, x) ∈ marks amendments ↔ ∃ a, x = some a ∧ Amends old new id a := by
  rw [marks, List.mem_map]
  constructor
  case mp =>
    rintro ⟨c, hc, ⟨⟩⟩
    obtain ⟨row, hrow, hnew, rfl⟩ | ⟨row, hrow, ⟨previous, hp, he, hd⟩, rfl⟩ |
      ⟨row, hrow, hgone, rfl⟩ := (h.mem_iff c).mp hc
    case inl     => exact ⟨.added, rfl, hnew, List.mem_map_of_mem (f := (·.rowId)) hrow⟩
    case inr.inl => exact ⟨.modified, rfl, previous, hp, row, hrow, he, rfl, hd⟩
    case inr.inr => exact ⟨.deleted, rfl, List.mem_map_of_mem (f := (·.rowId)) hrow, hgone⟩
  case mpr =>
    rintro ⟨a, rfl, ha⟩
    cases a
    case added =>
      obtain ⟨hnew, hin⟩ := ha
      obtain ⟨row, hrow, rfl⟩ := List.mem_map.mp hin
      exact ⟨_, h.added_mem hrow hnew, rfl⟩
    case modified =>
      obtain ⟨c, hc, d, hd, he, rfl, hne⟩ := ha
      exact ⟨_, h.modified_mem hc hd he hne, rfl⟩
    case deleted =>
      obtain ⟨hin, hgone⟩ := ha
      obtain ⟨row, hrow, rfl⟩ := List.mem_map.mp hin
      exact ⟨_, h.deleted_mem hrow hgone, rfl⟩

end IsDifference

theorem Differs.symm (h : Differs c d) : Differs d c :=
  h.imp Ne.symm Ne.symm

theorem Amends.reversed {id : Option String} (h : Amends old new id a) :
    Amends new old id (reversed a) := by
  cases a
  case added   => exact h.symm
  case deleted => exact h.symm
  case modified =>
    obtain ⟨c, hc, d, hd, hid, hid', hne⟩ := h
    exact ⟨d, hd, c, hc, hid', hid, hne.symm⟩

section Shelf

-- A shelf of samples. One is painted over, one is new and one is gone, and one has only a new version.
def shelf : List Comparison :=
  [⟨some "1", false, none, [⟨"recordId", "1"⟩, ⟨"dye", "red"⟩], none⟩,
    ⟨some "2", false, none, [⟨"recordId", "2"⟩, ⟨"datasetVersion", "1.01"⟩], some "01"⟩,
    ⟨some "3", false, none, [⟨"recordId", "3"⟩], none⟩]

def document (rows : List Comparison) : List UInt8 :=
  let result := fun row => "<result>" ++ String.join (row.fragments.map (·.render)) ++ "</result>"
  bytes ("<message><payload><dataset>" ++ String.join (rows.map result) ++
    "</dataset></payload></message>")

end Shelf

end Difference

end ReportExchange
