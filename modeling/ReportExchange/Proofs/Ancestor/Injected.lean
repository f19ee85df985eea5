import ReportExchange.Proofs.Ancestor.Inject
import ReportExchange.Proofs.Catalog.Build
import ReportExchange.Row.Record

namespace ReportExchange.Row

variable {d : CatalogDefinition} {c : Catalog} {parent child s : Row}
variable {ancestor column : String} {id : RowId}

-- The child gets the identity of an ancestor from the parent. Neither of the two relations of the
-- parent, up to the ancestor and down to the child, needs to be direct.
structure Inherits (d : CatalogDefinition) (parent child : Row) (ancestor : String)
    (id : RowId) : Prop where
  other   : ancestor ≠ parent.table.name
  related : ∃ r ∈ d.relations, r.parent = ancestor ∧ r.child = parent.table.name
  known   : parent.parentId ancestor = some id
  place   : child.table.declares (foreignKey ancestor)
  free    : child.parentId ancestor = none

-- What a child becomes.
structure Injects (d : CatalogDefinition) (parent child s : Row) : Prop where
  table     : s.table = child.table
  id        : s.id = child.id
  version   : s.version = child.version
  key       : s.get (foreignKey parent.table.name) = some (.plain parent.id.text)
  parentId  : s.parentId parent.table.name = some parent.id
  inherited : ∀ ancestor id, Inherits d parent child ancestor id →
    s.get (foreignKey ancestor) = some (.plain id.text) ∧ s.parentId ancestor = some id
  spared    : ∀ column, column ≠ foreignKey parent.table.name →
    (∀ ancestor id, Inherits d parent child ancestor id → column ≠ foreignKey ancestor) →
    s.get column = child.get column

theorem handedDown_iff_related (hb : Catalog.build d = .ok c) (hp : parent.table ∈ c.tables) :
    parent.handedDown column = some id ↔
      ∃ r ∈ d.relations, r.child = parent.table.name ∧ r.foreignKey = column ∧
        parent.parentId r.parent = some id := by
  rw [handedDown_eq_some_iff, Catalog.parents_of_build hb hp]
  simp [and_assoc]

theorem inherited_of_injectParent (hb : Catalog.build d = .ok c) (hp : parent.table ∈ c.tables)
    (hs : parent.injectParent child = some s) (h : Inherits d parent child ancestor id) :
    s.get (foreignKey ancestor) = some (.plain id.text) ∧ s.parentId ancestor = some id := by
  obtain ⟨r, hr, rfl, hc⟩ := h.related
  have hh : parent.handedDown (foreignKey r.parent) = some id :=
    (handedDown_iff_related hb hp).mpr ⟨r, hr, hc, rfl, h.known⟩
  have hne : foreignKey r.parent ≠ foreignKey parent.table.name :=
    fun e => h.other (foreignKey_injective e)
  have hfree : (child.get (foreignKey r.parent)).bind Cell.identity? = none :=
    (child.identityIn_eq _).symm.trans h.free
  have hg : s.get (foreignKey r.parent) = some (.plain id.text) := by
    rw [get_of_injectParent hs, if_neg hne, injected, hh]
    exact if_pos ⟨h.place, hfree⟩
  have hset : id.isSet := (Option.filter_eq_some_iff.mp h.known).2
  exact ⟨hg, (s.identityIn_eq _).trans (hg ▸ Cell.identity?_plain hset)⟩

theorem spared_of_injectParent (hb : Catalog.build d = .ok c) (hp : parent.table ∈ c.tables)
    (hs : parent.injectParent child = some s) (hk : column ≠ foreignKey parent.table.name)
    (h : ∀ ancestor id, Inherits d parent child ancestor id → column ≠ foreignKey ancestor) :
    s.get column = child.get column := by
  rw [get_of_injectParent hs, if_neg hk, injected]
  cases hh : parent.handedDown column
  case none    => rfl
  case some id =>
    obtain ⟨r, hr, hc, rfl, hi⟩ := (handedDown_iff_related hb hp).mp hh
    refine if_neg fun hf => h r.parent id ⟨?_, ⟨r, hr, rfl, hc⟩, hi, hf.1, ?_⟩ rfl
    case refine_1 => exact fun e => hk (congrArg foreignKey e)
    case refine_2 => exact (child.identityIn_eq _).trans hf.2

theorem injects_of_injectParent (hb : Catalog.build d = .ok c) (hp : parent.table ∈ c.tables)
    (hs : parent.injectParent child = some s) (hi : parent.id.isSet) :
    Injects d parent child s := by
  have hw := spares_of_injectParent hs
  obtain ⟨hk, hid⟩ := parentId_of_injectParent hs hi
  exact {
    table     := hw.table
    id        := hw.id
    version   := hw.version
    key       := hk
    parentId  := hid
    inherited := fun _ _ h => inherited_of_injectParent hb hp hs h
    spared    := fun _ hc h => spared_of_injectParent hb hp hs hc h }

theorem injectParent_eq_none (h : child.table.relationTo parent.table.name = none) :
    parent.injectParent child = none := by
  simp [injectParent, h]

-- The first time leaves an identity in every cell that it writes, and the second time writes the
-- same into the key of the parent and finds nothing else to fill.
theorem injectParent_again (hs : parent.injectParent child = some s) :
    parent.injectParent s = some s := by
  obtain ⟨r, mid, hr, hm, _⟩ := injectParent_eq_some_iff.mp hs
  have hw := spares_of_injectParent hs
  have hd : child.table.declares (foreignKey parent.table.name) := by
    by_contra hd
    exact absurd hm (by simp [setParentId, putCode, put, hd])
  obtain ⟨again, ha⟩ : ∃ again, parent.injectParent s = some again := by
    obtain ⟨mid, hm⟩ := exists_put (r := s) (hw.table ▸ hd) (.plain parent.id.text)
    exact ⟨_, injectParent_eq_some_iff.mpr ⟨r, mid, hw.table ▸ hr, hm, rfl⟩⟩
  have hv := spares_of_injectParent ha
  have hc (column : String) : again.get column = s.get column := by
    rw [get_of_injectParent ha, hw.table]
    by_cases hk : column = foreignKey parent.table.name
    case pos => rw [if_pos hk, get_of_injectParent hs, if_pos hk]
    case neg => rw [if_neg hk, get_of_injectParent hs, if_neg hk, injected_injected]
  rw [ha]
  exact congrArg some (Row.ext hv.table hv.id hv.version (funext hc))

-- A relation between the two tables decides whether anything is written.
theorem injectParent_effect (hb : Catalog.build d = .ok c) (hp : parent.table ∈ c.tables)
    (hc : child.table ∈ c.tables) :
    ((∀ r ∈ d.relations, ¬ (r.parent = parent.table.name ∧ r.child = child.table.name)) →
      parent.injectParent child = none) ∧
    ((∃ r ∈ d.relations, r.parent = parent.table.name ∧ r.child = child.table.name) →
      ∃ s, parent.injectParent child = some s ∧ parent.injectParent s = some s ∧
        (parent.id.isSet → Injects d parent child s)) := by
  have mem (r : Relation) :
      r ∈ child.table.parents ↔ r ∈ d.relations ∧ r.child = child.table.name := by
    simp [Catalog.parents_of_build hb hc]
  constructor
  case left =>
    intro h
    refine injectParent_eq_none (Table.relationTo_eq_none_iff.mpr fun r hr e => ?_)
    obtain ⟨hr, hn⟩ := (mem r).mp hr
    exact h r hr ⟨e, hn⟩
  case right =>
    rintro ⟨r, hr, e, hn⟩
    have hm : r ∈ child.table.parents := (mem r).mpr ⟨hr, hn⟩
    obtain ⟨s, hs⟩ := exists_injectParent hm e ((Catalog.sound_of_build hb).keys _ hc r hm)
    exact ⟨s, hs, injectParent_again hs, injects_of_injectParent hb hp hs⟩

-- A sample that has been taken on a site and may carry the study of the site as well.
namespace Samples

def definition : CatalogDefinition where
  tables    := [
    { name := "study" }, { name := "site" }, { name := "sample", columns := [{ id := "dye" }] }]
  relations := [
    { parent := "study", child := "site" }, { parent := "site", child := "sample" },
    { parent := "study", child := "sample", direct := false },
    { parent := "sample", child := "sample", direct := false }]

def catalog : Catalog :=
  (Catalog.build definition).toOption.getD ⟨[]⟩

def row (table : String) (h : (catalog.table? table).isSome) (r : Record) : Row :=
  let t := (catalog.table? table).get h
  (ofRecord t r).toOption.getD (blank t)

def site : Row :=
  row "site" (by decide) { id := ⟨4⟩, cells := [("studyId", .plain " 7")] }

def sample : Row :=
  row "sample" (by decide) { id := ⟨1⟩, cells := [("dye", .plain "red"), ("studyId", .plain "-")] }

end Samples

open Samples in
theorem injectParent_effect_samples :
    Catalog.build definition = .ok catalog ∧ site.table ∈ catalog.tables ∧
    sample.table ∈ catalog.tables ∧ sample.injectParent site = none ∧
    ∃ s, site.injectParent sample = some s ∧ site.injectParent s = some s ∧
      Injects definition site sample s ∧ s.get "studyId" = some (.plain "7") ∧
      s.get "dye" = some (.plain "red") := by
  have hb : Catalog.build definition = .ok catalog := by decide
  have hs : site.table ∈ catalog.tables := by decide
  have hc : sample.table ∈ catalog.tables := by decide
  have hn := (injectParent_effect hb hc hs).1 (by decide)
  obtain ⟨s, hi, ha, he⟩ := (injectParent_effect hb hs hc).2 (by decide)
  have hset : site.id.isSet := by decide
  have hstudy : Inherits definition site sample "study" ⟨7⟩ :=
    ⟨by decide, by decide, by decide, by decide, by decide⟩
  refine ⟨hb, hs, hc, hn, s, hi, ha, he hset, ((he hset).inherited "study" ⟨7⟩ hstudy).1, ?_⟩
  obtain rfl : (site.injectParent sample).getD sample = s := by rw [hi]; rfl
  decide

end ReportExchange.Row
