import ReportExchange.Proofs.Formula.Passes
import ReportExchange.Proofs.Identity
import ReportExchange.Proofs.Store.Rows
import ReportExchange.Proofs.Success
import ReportExchange.Report.Walk
import ReportExchange.Store.DataFile

namespace ReportExchange

open Formula Text

variable {a : Archive} {parent : String} {id : RowId} {r : Row}

namespace Row

-- The foreign key to a parent is written in the plain way, apart from blanks around it.
def PlainKey (r : Row) (parent : String) : Prop :=
  Plain (trimmed ((r.code (foreignKey parent)).getD "").toList)

instance (r : Row) (parent : String) : Decidable (r.PlainKey parent) :=
  inferInstanceAs (Decidable (Plain _))

theorem parentId_eq_some_iff (h : id.isSet) :
    r.parentId parent = some id ↔ ∃ key, r.code (foreignKey parent) = some key ∧
      RowId.read? key = some id := by
  rw [parentId, Option.filter_eq_some_iff, Option.bind_eq_some_iff]
  simp [h]

-- Downwards, only those of the keys that read as the identity count which are plain.
theorem trim_code_eq_iff (h : id.isSet) :
    (r.code (foreignKey parent)).map trim = some id.text ↔
      r.parentId parent = some id ∧ r.PlainKey parent := by
  rw [parentId_eq_some_iff h, PlainKey]
  cases r.code (foreignKey parent)
  case none     => simp
  case some key => simp [RowId.trim_eq_text_iff h]

-- A key that is written for a parent is the parent's identity as it is, with nothing to trim.
theorem trim_code_of_setParentId {w : Row} (h : id.isSet) (hw : r.setParentId parent id = .ok w) :
    (w.code (foreignKey parent)).map trim = some id.text := by
  have hc : w.code (foreignKey parent) = some id.text := by
    have hg := get_of_put hw (foreignKey parent)
    rw [if_pos rfl] at hg
    rw [code, show w.cells (foreignKey parent) = _ from hg]
    rfl
  rw [hc, Option.map_some, RowId.trim_text h]

end Row

-- So a row with a key that has been written for a parent is found both ways, from the parent and up
-- to it.
theorem Store.mem_childrenOf_of_setParentId {s : Store} {table : String} {w : Row} (h : id.isSet)
    (hw : r.setParentId parent id = .ok w) (hm : w ∈ s.rows table) :
    w ∈ s.childrenOf table parent id ∧ w.parentId parent = some id := by
  have ht := Row.trim_code_of_setParentId h hw
  exact ⟨List.mem_filter.mpr ⟨hm, decide_eq_true ht⟩, ((Row.trim_code_eq_iff h).mp ht).1⟩

-- Upwards, every key counts that reads as the identity.
theorem value_follow_eq_ok_iff {up : Row} {rel : Relation} (hu : a.parent rel.parent id = .ok up) :
    (follow a r [rel]).value = .ok up ↔ r.parentId rel.parent = some id := by
  have ident {i : RowId} (h : a.parent rel.parent i = .ok up) : up.id = i :=
    Store.id_of_find? (Archive.parent_eq_ok_iff.mp h).2
  rw [value_follow_cons]
  cases r.parentId rel.parent
  case none => simp
  case some i =>
    dsimp only
    constructor
    case mp =>
      intro h
      obtain ⟨found, hf, e⟩ := bind_eq_ok.mp h
      cases e
      cases hi : a.parent rel.parent i <;> rw [hi] at hf <;> cases hf
      rw [← ident hi, ident hu]
    case mpr =>
      intro e
      cases e
      rw [hu]
      rfl

-- The rows below a parent are exactly those whose formulas climb to it and whose key is plain. They
-- are all that climb to it if and only if no other key reads as its identity.
theorem children_iff_parentId_plain (a : Archive) (table parent : String) (id : RowId)
    (h : id.isSet) :
    (∀ r, r ∈ a.store.childrenOf table parent id ↔
      r ∈ a.store.rows table ∧ r.parentId parent = some id ∧ r.PlainKey parent) ∧
    (a.store.childrenOf table parent id).Pairwise (fun r t => r.id.val < t.id.val) ∧
    (a.store.childrenOf table parent id =
        (a.store.rows table).filter (fun r => r.parentId parent = some id) ↔
      ∀ r ∈ a.store.rows table, r.parentId parent = some id → r.PlainKey parent) ∧
    (∀ row child, row.table.name = parent → row.id = id → child.name = table → child.traversable →
      Walk.childrenIn a row child = ((a.store.rows table).filter fun r =>
        r.parentId parent = some id ∧ r.PlainKey parent).map fun r => (row.injectParent r).getD r) ∧
    ∀ r rel up, rel.parent = parent → a.parent parent id = .ok up →
      ((follow a r [rel]).value = .ok up ↔ r.parentId parent = some id) := by
  have hf : a.store.childrenOf table parent id = (a.store.rows table).filter fun r =>
      r.parentId parent = some id ∧ r.PlainKey parent :=
    List.filter_congr fun r _ => decide_eq_decide.mpr (Row.trim_code_eq_iff h)
  refine ⟨fun r => ?_, a.store.childrenOf_ascending table parent id, ?_, ?_, ?_⟩
  case refine_1 => rw [hf, List.mem_filter, decide_eq_true_iff]
  case refine_2 =>
    rw [hf]
    constructor
    case mp =>
      intro e r hr hp
      have hm : r ∈ (a.store.rows table).filter fun r => r.parentId parent = some id :=
        List.mem_filter.mpr ⟨hr, decide_eq_true hp⟩
      rw [← e] at hm
      exact (of_decide_eq_true (List.mem_filter.mp hm).2).2
    case mpr =>
      intro hk
      refine List.filter_congr fun r hr => decide_eq_decide.mpr ?_
      exact ⟨And.left, fun hp => ⟨hp, hk r hr hp⟩⟩
  case refine_3 =>
    rintro row child rfl rfl rfl ht
    rw [Walk.childrenIn, if_pos ht, hf]
  case refine_4 =>
    rintro r rel up rfl hu
    exact value_follow_eq_ok_iff hu

-- One tray, and vials whose keys all read as 7, in different spellings.
namespace Trays

def definition : CatalogDefinition where
  tables := [
    { name := "tray", traversable := true },
    { name := "vial", traversable := true, generatesRecord := true,
      columns := [{ id := "dye", output := .record }] }]
  relations := [{ parent := "tray", child := "vial" }]

def vial (id : Int64) (key : String) : Record :=
  { id := ⟨id⟩, cells := [("trayId", .plain key)] }

def records : List (String × List Record) := [
  ("tray", [{ id := ⟨7⟩ }]),
  ("vial", [vial 1 "7", vial 2 "007", vial 3 " 7 ", vial 4 "+7"])]

def catalog : Catalog :=
  (Catalog.build definition).toOption.getD ⟨[]⟩

def archive : Archive where
  catalog := catalog
  store   := (Store.ofTables catalog records).toOption.getD {}

-- The last vial, with a sign in its key.
def stray : Row :=
  (archive.store.rows "vial").getLast (by decide)

end Trays

open Trays in
theorem children_iff_parentId_plain_trays :
    (archive.store.childrenOf "vial" "tray" ⟨7⟩).map (·.id) = [⟨1⟩, ⟨3⟩] ∧
    archive.store.childrenOf "vial" "tray" ⟨7⟩ ≠
      (archive.store.rows "vial").filter fun r => r.parentId "tray" = some ⟨7⟩ := by
  obtain ⟨_, _, hall, _⟩ :=
    children_iff_parentId_plain archive "vial" "tray" ⟨7⟩ (by decide)
  refine ⟨by decide +kernel, fun e => ?_⟩
  have hs : stray.parentId "tray" = some ⟨7⟩ := by decide +kernel
  have hn : ¬ stray.PlainKey "tray" := by decide +kernel
  exact hn (hall.mp e stray (List.getLast_mem _) hs)

-- A key with zeros in front reads as the parent's identity, and yet the row is not below the parent.
open Trays in
theorem children_miss_other_spellings :
    ¬ ∀ (s : Store) (table parent : String) (id : RowId), id.isSet →
      s.childrenOf table parent id =
        (s.rows table).filter fun r => r.parentId parent = some id := by
  intro h
  have hids := congrArg (List.map (·.id)) (h archive.store "vial" "tray" ⟨7⟩ (by decide))
  exact absurd hids (by decide +kernel)

end ReportExchange
