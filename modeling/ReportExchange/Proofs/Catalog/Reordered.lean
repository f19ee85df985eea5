import ReportExchange.Proofs.Catalog.Ancestry
import ReportExchange.Proofs.Catalog.Build
import ReportExchange.Proofs.Formula.Reference

namespace ReportExchange

-- The same table with its columns in another order.
structure TableDefinition.Reordered (t t' : TableDefinition) : Prop where
  name            : t'.name = t.name
  traversable     : t'.traversable = t.traversable
  generatesRecord : t'.generatesRecord = t.generatesRecord
  columns         : t.columns.Perm t'.columns

structure CatalogDefinition.Reordered (d d' : CatalogDefinition) : Prop where
  tables    : List.Forall₂ TableDefinition.Reordered d.tables d'.tables
  relations : d'.relations = d.relations

structure Table.Reordered (t t' : Table) : Prop where
  name            : t'.name = t.name
  columns         : t.columns.Perm t'.columns
  children        : t'.children = t.children
  parents         : t'.parents = t.parents
  traversable     : t'.traversable = t.traversable
  generatesRecord : t'.generatesRecord = t.generatesRecord

def Catalog.Reordered (c c' : Catalog) : Prop :=
  List.Forall₂ Table.Reordered c.tables c'.tables

namespace CatalogDefinition.Reordered

variable {d d' : CatalogDefinition}

theorem names (h : d.Reordered d') : d'.names = d.names := by
  have hn : List.Forall₂ Eq d.names d'.names := List.rel_map (fun _ _ hr => hr.name.symm) h.tables
  rw [List.forall₂_eq_eq_eq] at hn
  exact hn.symm

theorem passes (h : d.Reordered d') (hp : d.Passes) : d'.Passes where
  tables := by
    have ⟨hs, hc⟩ := checkTables_eq_ok_iff.mp hp.tables
    have hn : d'.tables.map (·.name) = d.tables.map (·.name) := h.names
    refine checkTables_eq_ok_iff.mpr ⟨hn ▸ hs, fun t' ht' => ?_⟩
    have ⟨t, ht, hr⟩ := exists_of_mem_forall₂ h.tables ht'
    have ⟨hf, ha⟩ := TableDefinition.checkColumns_eq_ok_iff.mp (hc t ht)
    refine TableDefinition.checkColumns_eq_ok_iff.mpr ⟨hf.of_perm (hr.columns.map _), ?_⟩
    intro column hm
    exact hr.name ▸ ha column (hr.columns.mem_iff.mpr hm)
  relations := by
    rw [h.names, h.relations]
    exact hp.relations
  acyclic := by
    rw [Catalog.checkAcyclic, h.names, h.relations]
    exact hp.acyclic

end CatalogDefinition.Reordered

namespace Catalog

theorem withForeignKeys_perm {columns columns' : List Column} {parents : List Relation}
    (h : columns.Perm columns') :
    (withForeignKeys columns parents).Perm (withForeignKeys columns' parents) := by
  induction parents generalizing columns columns'
  case nil => exact h
  case cons r rs hi =>
    simp only [withForeignKeys, List.foldl_cons] at hi ⊢
    apply hi
    rw [h.any_eq]
    split
    case isTrue  => exact h
    case isFalse => exact h.append_right _

theorem assemble_reordered {relations : List Relation} {t t' : TableDefinition}
    (h : t.Reordered t') : (assemble relations t).Reordered (assemble relations t') where
  name            := h.name
  children        := by simp [assemble, h.name]
  parents         := by simp [assemble, h.name]
  traversable     := h.traversable
  generatesRecord := h.generatesRecord
  columns         := by
    simp only [assemble, h.name]
    exact withForeignKeys_perm h.columns

theorem build_reordered {d d' : CatalogDefinition} {c : Catalog} (h : d.Reordered d')
    (hb : build d = .ok c) : ∃ c', build d' = .ok c' ∧ c.Reordered c' := by
  have ⟨hp, ht⟩ := CatalogDefinition.build_eq_ok_iff.mp hb
  refine ⟨⟨d'.tables.map (assemble d'.relations)⟩, ?_, ?_⟩
  case refine_1 => exact CatalogDefinition.build_eq_ok_iff.mpr ⟨h.passes hp, rfl⟩
  case refine_2 =>
    rw [Reordered, ht, h.relations]
    exact List.rel_map (fun _ _ hr => assemble_reordered hr) h.tables

end Catalog

namespace Table.Reordered

variable {t t' : Table} {x y : CellHalf}

theorem declares (h : t.Reordered t') (id : String) : t'.declares id = t.declares id :=
  h.columns.symm.any_eq

theorem directParents (h : t.Reordered t') : t'.directParents = t.directParents := by
  simp [Table.directParents, h.parents]

theorem nodup (h : t.Reordered t') (hn : (t.columns.map (·.id)).Nodup) :
    (t'.columns.map (·.id)).Nodup :=
  (h.columns.map _).nodup hn

theorem column? (h : t.Reordered t') (hn : (t.columns.map (·.id)).Nodup) (id : String) :
    t'.column? id = t.column? id := by
  apply Option.ext
  intro c
  simp only [column?_eq_some_iff hn, column?_eq_some_iff (h.nodup hn), h.columns.mem_iff]

theorem formula? (h : t.Reordered t') (hn : (t.columns.map (·.id)).Nodup) (x : CellHalf) :
    t'.formula? x = t.formula? x := by
  simp only [Table.formula?, h.column? hn]

theorem looping_iff (h : t.Reordered t') (hn : (t.columns.map (·.id)).Nodup) :
    t'.Looping x ↔ t.Looping x := by
  have hr : t'.Refers = t.Refers := by
    funext x y
    simp only [Refers, h.formula? hn]
  simp only [Looping, hr]

end Table.Reordered

namespace Catalog

variable {c c' : Catalog} {column : String} {seen : List String}

theorem Reordered.table? (h : c.Reordered c') (name : String) :
    Option.Rel Table.Reordered (c.table? name) (c'.table? name) :=
  find?_forall₂ h fun _ _ hr => by rw [hr.name]

structure Trail.Reordered (t t' : Trail) : Prop where
  table : t.table.Reordered t'.table
  path  : t'.path = t.path

inductive Outlook.Reordered : Outlook → Outlook → Prop
  | found (path : List Relation) : Reordered (.found path) (.found path)
  | beyond {seen : List String} {level level' : List Trail} :
    List.Forall₂ Trail.Reordered level level' →
    Reordered (.beyond seen level) (.beyond seen level')

theorem stepsFrom_reordered {level level' : List Trail}
    (h : List.Forall₂ Trail.Reordered level level') : stepsFrom level' = stepsFrom level := by
  induction h
  case nil => rfl
  case cons hr _ hi =>
    simp only [stepsFrom, List.flatMap_cons, hr.path, hr.table.directParents] at hi ⊢
    rw [hi]

theorem survey_reordered (h : c.Reordered c') {steps : List (List Relation × Relation)}
    {level level' : List Trail} (hl : List.Forall₂ Trail.Reordered level level') :
    (survey c column seen level steps).Reordered (survey c' column seen level' steps) := by
  induction steps generalizing seen level level'
  case nil => exact .beyond hl
  case cons step steps hi =>
    have ⟨path, r⟩ := step
    simp only [survey]
    split
    case isTrue  => exact hi hl
    case isFalse =>
      have ht := h.table? r.parent
      cases e : c.table? r.parent <;> cases e' : c'.table? r.parent <;>
        simp only [e, e'] at ht ⊢
      case none.none => exact hi hl
      case some.some t t' =>
        cases ht
        case some hr =>
          rw [hr.declares]
          split
          case isTrue  => exact .found _
          case isFalse => exact hi (List.rel_append hl (.cons ⟨hr, rfl⟩ .nil))
      all_goals cases ht

theorem climb_reordered (h : c.Reordered c') {level level' : List Trail} {fuel : Nat}
    (hl : List.Forall₂ Trail.Reordered level level') :
    climb c' column fuel seen level' = climb c column fuel seen level := by
  induction fuel generalizing seen level level'
  case zero => rfl
  case succ fuel hi =>
    have hs : (survey c column seen [] (stepsFrom level)).Reordered
        (survey c' column seen [] (stepsFrom level)) := survey_reordered h .nil
    simp only [climb, stepsFrom_reordered hl]
    generalize survey c column seen [] (stepsFrom level) = o at hs ⊢
    generalize survey c' column seen [] (stepsFrom level) = o' at hs ⊢
    cases hs
    case found => rfl
    case beyond hl =>
      cases hl
      case nil        => rfl
      case cons ht hl => exact hi (.cons ht hl)

theorem pathToAncestor_reordered (h : c.Reordered c') (start column : String) :
    c'.pathToAncestor start column = c.pathToAncestor start column := by
  have ht := h.table? start
  simp only [pathToAncestor, h.length_eq]
  cases e : c.table? start <;> cases e' : c'.table? start <;> simp only [e, e'] at ht ⊢
  case some.some =>
    cases ht
    case some hr => exact climb_reordered h (.cons ⟨hr, rfl⟩ .nil)
  all_goals cases ht

end Catalog

end ReportExchange
