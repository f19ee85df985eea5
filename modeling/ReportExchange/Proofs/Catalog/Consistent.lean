import ReportExchange.Proofs.Ancestor.Inject
import ReportExchange.Proofs.Catalog.Staging

namespace ReportExchange

-- What comes of the definition of a table.
structure Stage.Consistent (d : CatalogDefinition) (td : TableDefinition) (s : Stage) : Prop where
  name            : s.table.name = td.name
  traversable     : s.table.traversable = td.traversable
  generatesRecord : s.table.generatesRecord = td.generatesRecord
  distinct        : (s.table.columns.map (·.id)).Nodup
  within          : ∀ id i, s.places id = some i → i < s.table.columns.length
  indexed         : ∀ id column,
    s.column? id = some column ↔ column ∈ s.table.columns ∧ column.id = id
  looked          : ∀ id, s.table.column? id = s.column? id
  -- Relations give a column more only for want of a column of its name.
  appended        : ∃ added : List Relation,
    s.table.columns = td.columns ++ added.map (fun r => Column.ofParent r.parent) ∧
    added.Sublist d.relations ∧
    ∀ r ∈ added, r.child = td.name ∧ ∀ column ∈ td.columns, column.id ≠ r.foreignKey
  keys            : ∀ r ∈ d.relations, r.child = td.name →
    s.table.columns.countP (·.id = r.foreignKey) = 1
  children        : s.table.directChildren =
    d.relations.filter fun r => r.direct && r.parent = td.name
  parents         : s.table.parents = d.relations.filter (·.child = td.name)
  related         : ∀ parent r, s.table.relationTo parent = some r →
    r ∈ d.relations ∧ r.parent = parent ∧ r.child = td.name
  unrelated       : ∀ parent, s.table.relationTo parent = none ↔
    ∀ r ∈ d.relations, r.child = td.name → r.parent ≠ parent
  direct          : ∀ r ∈ d.relations, r.child = td.name → r.direct →
    ∃ up, s.table.relationTo r.parent = some up ∧ up.direct

namespace Catalog

variable {parents : List Relation} {columns : List Column}

theorem countP_foreignKey {r : Relation} (hn : (columns.map (·.id)).Nodup) (hr : r ∈ parents) :
    (withForeignKeys columns parents).countP (·.id = r.foreignKey) = 1 := by
  have hd : (withForeignKeys columns parents).any (·.id = r.foreignKey) :=
    declares_withForeignKeys hr
  obtain ⟨column, hm, hc⟩ := List.any_eq_true.mp hd
  rw [← of_decide_eq_true hc]
  exact countP_key_eq_one (withForeignKeys_nodup hn) hm

theorem appended_withForeignKeys (relations : List Relation) (columns : List Column)
    (name : String) : ∃ added : List Relation,
      withForeignKeys columns (relations.filter (·.child = name)) =
        columns ++ added.map (fun r => Column.ofParent r.parent) ∧
      added.Sublist relations ∧
      ∀ r ∈ added, r.child = name ∧ ∀ column ∈ columns, column.id ≠ r.foreignKey := by
  obtain ⟨added, he, hs, hn⟩ := withForeignKeys_eq columns (relations.filter (·.child = name))
  refine ⟨added, he, hs.trans List.filter_sublist, fun r hr => ⟨?_, by simpa using hn r hr⟩⟩
  exact of_decide_eq_true (List.mem_filter.mp (hs.subset hr)).2

end Catalog

theorem Stage.Reaches.consistent {d : CatalogDefinition} {td : TableDefinition} {s : Stage}
    (h : s.Reaches td d.relations) (hn : (td.columns.map (·.id)).Nodup) : s.Consistent d td := by
  obtain ⟨hi, ht⟩ := h
  have mem (r : Relation) : r ∈ s.table.parents ↔ r ∈ d.relations ∧ r.child = td.name := by
    simp [ht, Catalog.assemble]
  exact {
    name            := ht ▸ rfl
    traversable     := ht ▸ rfl
    generatesRecord := ht ▸ rfl
    distinct        := hi.nodup
    within          := fun _ _ => hi.lt_length
    indexed         := fun id column => by rw [hi.column?_eq]; exact find?_key_eq_some_iff hi.nodup
    looked          := fun id => (hi.column?_eq id).symm
    appended        := ht ▸ Catalog.appended_withForeignKeys d.relations td.columns td.name
    keys            := fun r hr hc => by
      rw [ht]
      exact Catalog.countP_foreignKey hn (List.mem_filter.mpr ⟨hr, decide_eq_true hc⟩)
    children        := by rw [ht, Table.directChildren, Catalog.assemble, List.filter_filter]
    parents         := ht ▸ rfl
    related         := fun parent r hr => by
      obtain ⟨hm, hp⟩ := Table.relationTo_parent hr
      exact ⟨((mem r).mp hm).1, hp, ((mem r).mp hm).2⟩
    unrelated       := fun parent => by simp [Table.relationTo_eq_none_iff, mem]
    direct          := fun r hr hc hd => Table.direct_relationTo ((mem r).mpr ⟨hr, hc⟩) hd }

theorem Staging.consistent {d : CatalogDefinition} (v : d.Valid) :
    List.Forall₂ (fun td s => s.Consistent d td) d.tables (ofDefinition d).stages := by
  rw [stages_eq v.names, List.forall₂_map_right_iff, List.forall₂_same]
  exact fun td hd => (reaches_relations v hd).consistent (v.columns td hd)

namespace Catalog

-- Tables come about in the order of the definition, each with an index that never leads astray, and
-- both ends of every relation are among them.
theorem build_consistent {d : CatalogDefinition} {c : Catalog} (hb : build d = .ok c) :
    c.tables = (Staging.ofDefinition d).stages.map (·.table) ∧
    (∀ name, c.table? name = ((Staging.ofDefinition d).stage? name).map (·.table)) ∧
    List.Forall₂ (fun td s => s.Consistent d td) d.tables (Staging.ofDefinition d).stages ∧
    ∀ r ∈ d.relations,
      (∃ td ∈ d.tables, td.name = r.parent) ∧ ∃ td ∈ d.tables, td.name = r.child := by
  have hv := (CatalogDefinition.valid_of_build hb).1
  refine ⟨(Staging.tables_of_build hb).symm, fun name => (Staging.table?_of_build hb name).symm,
    Staging.consistent hv, fun r hr => ?_⟩
  exact ⟨List.mem_map.mp (hv.ends r hr).1, List.mem_map.mp (hv.ends r hr).2⟩

-- Two relations ask the vials for the same key, and the racks have declared theirs themselves.
namespace Vials

def definition : CatalogDefinition where
  tables    := [
    { name := "vial", columns := [{ id := "dye" }] }, { name := "freezer" },
    { name := "rack", columns := [{ id := "freezerId", type := .picklist }, { id := "row" }] }]
  relations := [
    { parent := "rack", child := "vial" }, { parent := "freezer", child := "vial", direct := false },
    { parent := "freezer", child := "rack" },
    { parent := "rack", child := "vial", direct := false }]

def catalog : Catalog :=
  (build definition).toOption.getD ⟨[]⟩

end Vials

open Vials in
theorem build_consistent_vials :
    build definition = .ok catalog ∧
    (∀ name, catalog.table? name = ((Staging.ofDefinition definition).stage? name).map (·.table)) ∧
    List.Forall₂ (fun td s => s.Consistent definition td) definition.tables
      (Staging.ofDefinition definition).stages ∧
    catalog.tables.map (fun t => t.columns.map (·.id)) =
      [["dye", "rackId", "freezerId"], [], ["freezerId", "row"]] := by
  have hb : build definition = .ok catalog := by decide
  have ⟨_, hn, hs, _⟩ := build_consistent hb
  exact ⟨hb, hn, hs, by decide⟩

end Catalog

end ReportExchange
