import ReportExchange.Proofs.Ancestor.Faithful
import ReportExchange.Proofs.Catalog.Build
import ReportExchange.Proofs.Row.Spares
import ReportExchange.Proofs.Store.Rows
import ReportExchange.Proofs.Success
import ReportExchange.Store.DataFile

namespace ReportExchange

namespace Archive

-- The row is of a table of the catalog.
def Holds (a : Archive) (r : Row) : Prop :=
  a.catalog.table? r.table.name = some r.table

instance (a : Archive) (r : Row) : Decidable (a.Holds r) :=
  inferInstanceAs (Decidable (_ = _))

-- A catalog that has passed all checks, and a store of rows of its tables.
structure Sound (a : Archive) : Prop where
  built  : ∃ d, Catalog.build d = .ok a.catalog
  stored : ∀ shelf ∈ a.store.shelves, ∀ r ∈ shelf.rows, a.Holds r

variable {a : Archive} {row : Row}

theorem Holds.mem (h : a.Holds row) : row.table ∈ a.catalog.tables :=
  List.mem_of_find?_eq_some h

theorem Holds.of_table_eq {other : Row} (h : a.Holds row) (e : other.table = row.table) :
    a.Holds other := by
  rw [Holds, e]
  exact h

namespace Sound

variable (h : a.Sound)

include h

theorem catalog : a.catalog.Sound :=
  have ⟨_, hb⟩ := h.built
  Catalog.sound_of_build hb

theorem holds_of_mem {table : String} (hm : row ∈ a.store.rows table) : a.Holds row := by
  rw [Store.rows] at hm
  split at hm
  case h_1 shelf hs => exact h.stored shelf (List.mem_of_find?_eq_some hs) row hm
  case h_2          => cases hm

theorem holds_of_find? {table : String} {id : RowId} (hf : a.store.find? table id = some row) :
    a.Holds row :=
  h.holds_of_mem (List.mem_of_find?_eq_some hf)

end Sound

-- A parent is a row of the table that it is asked for.
theorem Sound.table_of_parent (h : a.Sound) {table : String} {id : RowId} {t : Table}
    (ht : a.catalog.table? table = some t) (hp : a.parent table id = .ok row) :
    a.Holds row ∧ row.table = t := by
  simp only [parent, Catalog.table, ht, Catalog.name_of_table? ht] at hp
  cases hf : a.store.find? table id <;> simp only [hf] at hp <;> cases hp
  case some.refl =>
    have hm := List.mem_of_find?_eq_some hf
    have held := h.holds_of_mem hm
    refine ⟨held, ?_⟩
    have hn := Store.table_of_mem_rows hm
    rw [Holds, hn, ht] at held
    exact (Option.some.inj held).symm

theorem mem_shelve {shelves : List Shelf} {shelf : Shelf} {r : Row}
    (hs : shelf ∈ Store.shelve row shelves) (hr : r ∈ shelf.rows) :
    r = row ∨ ∃ shelf ∈ shelves, r ∈ shelf.rows := by
  induction shelves
  case nil =>
    rw [List.mem_singleton.mp hs] at hr
    exact .inl (List.mem_singleton.mp hr)
  case cons top shelves hi =>
    rw [Store.shelve] at hs
    split at hs
    case isTrue =>
      cases List.mem_cons.mp hs
      case inr hs => exact .inr ⟨shelf, List.mem_cons_of_mem _ hs, hr⟩
      case inl e =>
        rw [e] at hr
        exact (Shelf.mem_place hr).imp_right fun hr => ⟨top, List.mem_cons_self, hr⟩
    case isFalse =>
      cases List.mem_cons.mp hs
      case inl e  => exact .inr ⟨top, List.mem_cons_self, e ▸ hr⟩
      case inr hs =>
        refine (hi hs).imp_right ?_
        rintro ⟨below, hb, hr⟩
        exact ⟨below, List.mem_cons_of_mem _ hb, hr⟩

theorem Sound.add (h : a.Sound) (held : a.Holds row) {id : RowId} {store : Store}
    (ha : a.store.add row = some (id, store)) : Sound { a with store } where
  built := h.built
  stored shelf hs r hr := by
    obtain ⟨-, -, rfl⟩ := Store.add_eq_some_iff.mp ha
    cases mem_shelve hs hr
    case inl e => exact held.of_table_eq (e ▸ rfl)
    case inr hr =>
      have ⟨shelf, hs, hr⟩ := hr
      exact h.stored shelf hs r hr

section DataFile

variable {c : Catalog} {s s' : Store}

theorem table_of_ofRecord {t : Table} {record : Record} (h : Row.ofRecord t record = .ok row) :
    row.table = t :=
  foldlM_inv (fun r : Row => r.table = t)
    (fun _ _ _ _ hp hr => (Row.spares_of_put hp).table.trans hr) h rfl

theorem Sound.addRecords {t : Table} {records : List Record} (ht : c.table? t.name = some t)
    (h : Store.addRecords t s records = .ok s') (hs : Sound ⟨c, s⟩) : Sound ⟨c, s'⟩ := by
  refine foldlM_inv (fun s => Sound ⟨c, s⟩) (fun record _ s s' hr hs => ?_) h hs
  obtain ⟨row, id, hrow, ha⟩ := Store.addRecord_eq_ok_iff.mp hr
  refine hs.add ?_ ha
  rw [Holds, table_of_ofRecord hrow]
  exact ht

-- The rows of a data file are read as rows of the catalog's tables.
theorem sound_of_ofTables {d : CatalogDefinition} {tables : List (String × List Record)}
    (hc : Catalog.build d = .ok c) (h : Store.ofTables c tables = .ok s) : Sound ⟨c, s⟩ := by
  refine foldlM_inv (fun s => Sound ⟨c, s⟩) (fun entry _ s s' hr hs => ?_) h ?_
  case refine_2 => exact ⟨⟨d, hc⟩, nofun⟩
  case refine_1 =>
    have ⟨name, records⟩ := entry
    change Store.addTable c s name records = .ok s' at hr
    rw [Store.addTable, Catalog.table] at hr
    cases ht : c.table? name <;> rw [ht] at hr
    case none   => cases hr
    case some t => exact hs.addRecords (Catalog.name_of_table? ht ▸ ht) hr

end DataFile

end Archive

end ReportExchange
