import Mathlib.Logic.Relation
import ReportExchange.Proofs.Formula.Outcome

namespace ReportExchange

-- The formula finds an empty cell in the row, and goes on with the formula of the cell.
def Row.LeadsOn (row : Row) (f g : Formula) : Prop :=
  row.text f.reference = "" ∧ row.table.formula? f.reference = some g

-- A cell that says something is one of the row's table.
theorem Row.declares_of_text {row : Row} {x : CellHalf} (h : row.text x ≠ "") :
    row.table.declares x.column := by
  refine row.declared x.column ?_
  cases hc : row.cells x.column
  case some => rfl
  case none => exact absurd (by simp [text, half, hc]) h

-- In a catalog that has been built, the formula that a column states for a half fills it.
theorem Catalog.formula?_cases {d : CatalogDefinition} {c : Catalog} {t : Table} {column : Column}
    {id : String} (hb : Catalog.build d = .ok c) (ht : t ∈ c.tables)
    (hc : t.column? id = some column) (half : Half) :
    column.formulaFor half = none ∧ t.formula? ⟨id, half⟩ = none ∨
    ∃ text f, column.formulaFor half = some text ∧ Formula.compile text = .ok f ∧
      t.formula? ⟨id, half⟩ = some f := by
  cases hx : column.formulaFor half
  case none => exact .inl ⟨rfl, by simp [Table.formula?, hc, hx]⟩
  case some text =>
    obtain ⟨f, hf⟩ := compiles_of_build hb ht (List.mem_of_find?_eq_some hc) hx
    exact .inr ⟨text, f, rfl, hf, by simp [Table.formula?, hc, hx, hf, Except.toOption]⟩

namespace Formula

-- Looked up in the row, the formula ends at a cell that says something.
def ReadsFrom (f : Formula) (row : Row) (x : CellHalf) : Prop :=
  row.text x ≠ "" ∧ ∃ g, Relation.ReflTransGen row.LeadsOn f g ∧ g.reference = x

-- The references of the formula within its table end at one that climbs by way of the key.
inductive HangsOn (c : Catalog) (t : Table) (key : CellHalf) : Formula → Prop
  | climb {f : Formula} {r : Relation} {rest : List Relation} :
    ¬ t.declares f.column → c.pathToAncestor t.name f.column = some (r :: rest) →
    key = ⟨r.foreignKey, .code⟩ → HangsOn c t key f
  | next {f g : Formula} : t.formula? f.reference = some g → HangsOn c t key g → HangsOn c t key f

theorem ReadsFrom.head {f g : Formula} {row : Row} {x : CellHalf} (h : g.ReadsFrom row x)
    (hl : row.LeadsOn f g) : f.ReadsFrom row x := by
  obtain ⟨hne, g', hg, e⟩ := h
  exact ⟨hne, g', hg.head hl, e⟩

theorem not_hangsOn_label {c : Catalog} {t : Table} {column : String} (f : Formula) :
    ¬ HangsOn c t ⟨column, .label⟩ f := by
  intro h
  induction h
  case climb e     => cases e
  case next _ _ hi => exact hi

theorem not_hangsOn_of_keys {c : Catalog} {t : Table} {key : CellHalf} (f : Formula)
    (ht : c.table? t.name = some t) (h : ∀ r ∈ t.directParents, key ≠ ⟨r.foreignKey, .code⟩) :
    ¬ f.HangsOn c t key := by
  intro hf
  induction hf
  case next _ _ hi => exact hi
  case climb r rest _ hp e =>
    obtain ⟨_, _, he, hr⟩ := Catalog.exists_first_of_pathToAncestor ht hp
    cases he
    exact h r hr e

variable {d : CatalogDefinition} {a : Archive} {row s : Row} {f g : Formula} {x : CellHalf}
variable {v w : String} {n m : Nat}

theorem value_lookUp_of_not_declares (hd : ¬ row.table.declares f.column) (n : Nat) :
    (lookUp a (n + 1) row f).value =
      (ancestor a row f.column).value >>= fun up => (lookUp a n up f).value := by
  rw [value_lookUp_succ, resolve_eq_none_iff.mpr hd]

-- In the tables of a catalog, every formula that is led on to can be read.
theorem value_lookUp_of_declares (hb : Catalog.build d = .ok a.catalog) (held : a.Holds row)
    (hd : row.table.declares f.column) (n : Nat) :
    (lookUp a (n + 1) row f).value =
      if row.text f.reference = "" then
        match row.table.formula? f.reference with
        | some g => (lookUp a n row g).value
        | none   => .ok ""
      else .ok (row.text f.reference) := by
  obtain ⟨c, hc⟩ := Option.isSome_iff_exists.mp (Table.declares_iff_isSome.mp hd)
  have ht : (row.half f.column f.half).getD "" = row.text f.reference := rfl
  rw [value_lookUp_succ, resolve, hc]
  simp only [ht]
  by_cases he : row.text f.reference = ""
  case neg => simp [he]
  case pos =>
    obtain ⟨hx, hg⟩ | ⟨text, g, hx, hcomp, hg⟩ := Catalog.formula?_cases hb held.mem hc f.half
    case inl =>
      replace hg : row.table.formula? f.reference = none := hg
      simp [he, hx, hg]
    case inr =>
      replace hg : row.table.formula? f.reference = some g := hg
      simp [he, hx, hcomp, hg]

-- A longer chain is allowed to come to the same.
theorem value_lookUp_mono (h : (lookUp a n row f).value = .ok v) (hn : n ≤ m) :
    (lookUp a m row f).value = .ok v := by
  induction n generalizing m row f
  case zero => cases h
  case succ n hi =>
    obtain ⟨m, rfl⟩ := Nat.exists_eq_add_of_le' (Nat.le_of_add_left_le hn)
    have hn : n ≤ m := Nat.le_of_succ_le_succ hn
    rw [value_lookUp_succ] at h ⊢
    cases hr : f.resolve row <;> simp only [hr] at h ⊢
    case none =>
      obtain ⟨up, hu, h⟩ := bind_eq_ok.mp h
      exact bind_eq_ok.mpr ⟨up, hu, hi h hn⟩
    case some answer =>
      cases answer <;> simp only at h ⊢
      case resolved => exact h
      case deferred =>
        split at h
        case h_1 g hg => exact hi h hn
        case h_2      => cases h

theorem value_lookUp_unique (h : (lookUp a n row f).value = .ok v)
    (h' : (lookUp a m row f).value = .ok w) : v = w := by
  have hv := value_lookUp_mono h (Nat.le_max_left n m)
  have hw := value_lookUp_mono h' (Nat.le_max_right n m)
  exact Except.ok.inj (hv.symm.trans hw)

section Leads

variable (hb : Catalog.build d = .ok a.catalog) (held : a.Holds row)

include hb held

-- Every step that leads on takes one off what a chain may still be long.
theorem exists_value_of_leads (hl : Relation.TransGen row.LeadsOn f g)
    (h : (lookUp a n row f).value = .ok v) : ∃ m < n, (lookUp a m row g).value = .ok v := by
  have step {f g : Formula} {n : Nat} (hl : row.LeadsOn f g)
      (h : (lookUp a n row f).value = .ok v) : ∃ m < n, (lookUp a m row g).value = .ok v := by
    obtain ⟨he, hg⟩ := hl
    cases n
    case zero   => cases h
    case succ n =>
      have hd : row.table.declares f.column := Table.declares_of_formula? hg
      rw [value_lookUp_of_declares hb held hd, if_pos he, hg] at h
      exact ⟨n, Nat.lt_succ_self n, h⟩
  induction hl
  case single hl => exact step hl h
  case tail hl hi =>
    obtain ⟨m, hm, h⟩ := hi
    obtain ⟨k, hk, h⟩ := step hl h
    exact ⟨k, hk.trans hm, h⟩

-- A formula that is led back to never comes to a value.
theorem not_leads_back (h : (lookUp a n row f).value = .ok v) :
    ¬ Relation.TransGen row.LeadsOn f f := by
  intro hl
  induction n using Nat.strong_induction_on
  case _ n hi =>
    obtain ⟨m, hm, h⟩ := exists_value_of_leads hb held hl h
    exact hi m hm h

theorem ReadsFrom.value_eq (hr : f.ReadsFrom row x) (h : (lookUp a n row f).value = .ok v) :
    v = row.text x := by
  obtain ⟨hne, g, hg, rfl⟩ := hr
  obtain ⟨m, h⟩ : ∃ m, (lookUp a m row g).value = .ok v := by
    obtain rfl | hg := Relation.reflTransGen_iff_eq_or_transGen.mp hg
    case inl => exact ⟨n, h⟩
    case inr =>
      obtain ⟨m, _, h⟩ := exists_value_of_leads hb held hg h
      exact ⟨m, h⟩
  cases m
  case zero   => cases h
  case succ m =>
    rw [value_lookUp_of_declares hb held (Row.declares_of_text hne), if_neg hne] at h
    exact (Except.ok.inj h).symm

-- Once a formula's value stands in its own cell, every other formula still comes to what it came to
-- before, unless it had read something else from the cell, or climbs by it.
theorem value_lookUp_written (hf : row.table.formula? x = some f)
    (hv : (lookUp a m row f).value = .ok v) (hs : row.setHalf x.column x.half v = .ok s)
    (hk : ¬ g.HangsOn a.catalog row.table x) (hw : (lookUp a n row g).value = .ok w) :
    (lookUp a n s g).value = .ok w ∨ g.ReadsFrom row x ∧ w ≠ v := by
  have ht : s.table = row.table := (Row.frame_of_put hs).1
  have held' : a.Holds s := held.of_table_eq ht
  induction n generalizing g
  case zero => cases hw
  case succ n hi =>
    by_cases hd : row.table.declares g.column
    case neg =>
      have hu : (ancestor a s g.column).value = (ancestor a row g.column).value := by
        refine value_ancestor_congr held ht fun r rest hp => ?_
        have hne : ⟨r.foreignKey, .code⟩ ≠ x := fun e => hk (.climb hd hp e.symm)
        rw [Row.text_setHalf hs, if_neg hne]
      rw [value_lookUp_of_not_declares (ht ▸ hd), hu, ← value_lookUp_of_not_declares hd]
      exact .inl hw
    case pos =>
      have next {g' : Formula} (he : row.text g.reference = "")
          (hg : row.table.formula? g.reference = some g')
          (h : (lookUp a n row g').value = .ok w) :
          (lookUp a n s g').value = .ok w ∨ g.ReadsFrom row x ∧ w ≠ v := by
        have hl : row.LeadsOn g g' := ⟨he, hg⟩
        exact (hi (fun h => hk (.next hg h)) h).imp_right fun ⟨hr, hne⟩ => ⟨hr.head hl, hne⟩
      rw [value_lookUp_of_declares hb held hd] at hw
      rw [value_lookUp_of_declares hb held' (ht ▸ hd), Row.text_setHalf hs, ht]
      by_cases hx : g.reference = x
      case neg =>
        rw [if_neg hx]
        split at hw
        case isFalse he => exact .inl (by rw [if_neg he, hw])
        case isTrue he  =>
          rw [if_pos he]
          cases hg : row.table.formula? g.reference <;> simp only [hg] at hw ⊢
          case none    => exact .inl hw
          case some g' => exact next he hg hw
      case pos =>
        rw [if_pos hx, hx, hf]
        rw [hx] at hw
        split at hw
        case isFalse he =>
          cases hw
          by_cases hne : row.text x = v
          case neg => exact .inr ⟨⟨he, g, .refl, hx⟩, hne⟩
          case pos => exact .inl (by rw [if_neg (hne ▸ he), hne])
        case isTrue he =>
          -- The cell has got the value that the formula was going to take from its formula.
          rw [hf] at hw
          obtain rfl := value_lookUp_unique hv hw
          split
          case isFalse  => exact .inl rfl
          case isTrue   => exact next (hx ▸ he) (hx ▸ hf) hw

-- Of the formulas that do not climb by the cell, those come to something else that had read a value
-- from it which is no longer there.
theorem value_lookUp_written_iff (hf : row.table.formula? x = some f)
    (hv : (lookUp a m row f).value = .ok v) (hs : row.setHalf x.column x.half v = .ok s)
    (hkf : ¬ f.HangsOn a.catalog row.table x) (hkg : ¬ g.HangsOn a.catalog row.table x)
    (hw : (lookUp a n row g).value = .ok w) :
    (lookUp a n s g).value = .ok w ↔ (g.ReadsFrom row x → v = row.text x) := by
  have ht : s.table = row.table := (Row.frame_of_put hs).1
  have hx : s.text x = v := by simp [Row.text_setHalf hs]
  constructor
  case mpr =>
    intro hr
    cases value_lookUp_written hb held hf hv hs hkg hw
    case inl h => exact h
    case inr h => exact absurd ((h.1.value_eq hb held hw).trans (hr h.1).symm) h.2
  case mp =>
    intro hw' hr
    have hb' : a.Holds s := held.of_table_eq ht
    have hrow : w = row.text x := hr.value_eq hb held hw
    obtain ⟨hfull, g', hl, rfl⟩ := hr
    have hl' : Relation.ReflTransGen s.LeadsOn g g' := by
      refine Relation.ReflTransGen.mono (fun b c h => ?_) _ _ hl
      obtain ⟨he, hc⟩ := h
      have hne : b.reference ≠ g'.reference := fun e => hfull (e ▸ he)
      exact ⟨by rw [Row.text_setHalf hs, if_neg hne, he], ht ▸ hc⟩
    by_cases he : s.text g'.reference = ""
    case neg =>
      have hread : g.ReadsFrom s g'.reference := ⟨he, g', hl', rfl⟩
      exact hx.symm.trans ((hread.value_eq hb hb' hw').symm.trans hrow)
    case pos =>
      -- The formula would now go on to the one that has emptied the cell, which comes to nothing.
      obtain ⟨k, _, hk⟩ := exists_value_of_leads hb hb' (.tail' hl' ⟨he, ht ▸ hf⟩) hw'
      cases value_lookUp_written hb held hf hv hs hkf hv
      case inr h => exact absurd rfl h.2
      case inl h => exact (value_lookUp_unique h hk).trans hrow

end Leads

end Formula

end ReportExchange
