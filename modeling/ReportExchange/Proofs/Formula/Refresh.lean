import ReportExchange.Proofs.Formula.Idempotence
import ReportExchange.Proofs.Formula.Lookup

namespace ReportExchange

namespace Row

variable {r s : Row} {x : CellHalf} {v : String} {read : CellHalf → Prop}

-- To write what is there is to write nothing.
theorem setHalf_of_half (h : r.half x.column x.half = some v) :
    r.setHalf x.column x.half v = .ok r := by
  obtain ⟨cell, hc, hv⟩ := Option.map_eq_some_iff.mp h
  have hd : r.table.declares x.column := r.declared _ (by simp [hc])
  obtain ⟨s, hs⟩ : ∃ s, r.setHalf x.column x.half v = .ok s := exists_put hd _
  obtain ⟨ht, hi, hver⟩ := frame_of_put hs
  have hw : cell.setHalf x.half v = cell := by
    rw [← hv]
    cases x.half <;> rfl
  have he : s = r := by
    refine Row.ext ht hi hver (funext fun k => ?_)
    have hg := get_of_put hs k
    rw [hc, Option.getD_some, hw] at hg
    simp only [get] at hg
    by_cases hk : k = x.column
    case pos => rw [hg, if_pos hk, hk, hc]
    case neg => rw [hg, if_neg hk]
  rw [hs, he]

theorem AgreesOn.symm (h : r.AgreesOn read s) : s.AgreesOn read r where
  table     := h.table.symm
  id        := h.id.symm
  version   := h.version.symm
  text x hx := (h.text x hx).symm

end Row

namespace Formula

variable {d : CatalogDefinition} {a : Archive} {row row' s t : Row} {x y : CellHalf} {f g : Formula}
variable {v : String} {column : String} {cache cache' : ParentCache}

-- A formula that is not led back to itself goes the same way when its own cell changes.
theorem ReadsFrom.of_agreesOn (h : row.AgreesOn (· ≠ x) s) (hf : row.table.formula? x = some f)
    (hl : ¬ Relation.TransGen row.LeadsOn f f) (hy : y ≠ x) (hr : f.ReadsFrom row y) :
    f.ReadsFrom s y := by
  obtain ⟨hne, g, hg, rfl⟩ := hr
  refine ⟨by rwa [h.text _ hy], g, ?_, rfl⟩
  clear hne hy
  induction hg
  case refl => exact .refl
  case tail b c hfb hbc hi =>
    obtain ⟨he, hc⟩ := hbc
    have hb : b.reference ≠ x := by
      intro e
      cases Option.some.inj (hf.symm.trans (e ▸ hc))
      exact hl (.tail' hfb ⟨he, hc⟩)
    exact hi.tail ⟨(h.text _ hb).trans he, h.table ▸ hc⟩

-- How one half of a column can come out when it is refreshed.
inductive Refreshes (a : Archive) (row : Row) (x : CellHalf) : Except FormulaError Row → Prop
  | plain :
    row.table.formula? x = none → Refreshes a row x (.ok row)
  | itself {f : Formula} :
    row.table.formula? x = some f → f.reference = x →
    Refreshes a row x (.error (.unresolved x.column x.half))
  | failed {f : Formula} {e : FormulaError} :
    row.table.formula? x = some f → f.reference ≠ x →
    (lookUp a (chainLimit + 1) row f).value = .error e → Refreshes a row x (.error e)
  | written {f : Formula} {v : String} {s : Row} :
    row.table.formula? x = some f → f.reference ≠ x →
    (lookUp a (chainLimit + 1) row f).value = .ok v →
    row.setHalf x.column x.half v = .ok s → Refreshes a row x (.ok s)

-- How a column can come out: the row that is left, and whether the refresh has succeeded.
inductive Refreshed (a : Archive) (row : Row) (column : String) :
    Row × Except FormulaError Unit → Prop
  | unknown :
    ¬ row.table.declares column →
    Refreshed a row column (row, .error (.unknownColumn column row.table.name))
  | code {e : FormulaError} :
    row.table.declares column → Refreshes a row ⟨column, .code⟩ (.error e) →
    Refreshed a row column (row, .error e)
  | label {s : Row} {e : FormulaError} :
    row.table.declares column → Refreshes a row ⟨column, .code⟩ (.ok s) →
    Refreshes a s ⟨column, .label⟩ (.error e) → Refreshed a row column (s, .error e)
  | both {s t : Row} :
    row.table.declares column → Refreshes a row ⟨column, .code⟩ (.ok s) →
    Refreshes a s ⟨column, .label⟩ (.ok t) → Refreshed a row column (t, .ok ())

namespace Refreshes

variable {r r' : Except FormulaError Row}

theorem unique (h : Refreshes a row x r) (h' : Refreshes a row x r') : r = r' := by
  cases h <;> cases h' <;> simp_all

-- A half that has been computed holds its value, and nothing else has been touched.
theorem rests (h : Refreshes a row x (.ok s)) : Row.Rests [x] row s := by
  cases h
  case plain                => exact .refl _ row
  case written f v _ _ _ hs => exact .of_setHalf hs (List.mem_singleton.mpr rfl)

theorem exists_formula {e : FormulaError} (h : Refreshes a row x (.error e)) :
    ∃ f, row.table.formula? x = some f := by
  cases h
  case itself hf _   => exact ⟨_, hf⟩
  case failed hf _ _ => exact ⟨_, hf⟩

theorem table_eq (h : Refreshes a row x (.ok s)) : s.table = row.table :=
  h.rests.spares.table

-- A half that has a formula stays as it is if it says what the formula comes to.
theorem self_iff (hf : row.table.formula? x = some f) :
    Refreshes a row x (.ok row) ↔ f.reference ≠ x ∧
      row.half x.column x.half = some (row.text x) ∧
      (lookUp a (chainLimit + 1) row f).value = .ok (row.text x) := by
  constructor
  case mp =>
    intro h
    cases h
    case plain hn => simp [hf] at hn
    case written f' v hf' hne hv hs =>
      cases Option.some.inj (hf.symm.trans hf')
      have hh := Row.half_setHalf_self hs
      rw [Row.text_of_half hh]
      exact ⟨hne, hh, hv⟩
  case mpr =>
    rintro ⟨hne, hh, hv⟩
    exact .written hf hne hv (Row.setHalf_of_half hh)

-- Computing another half on top leaves nothing to see of a half only if that one has stood there.
theorem eq_of_back (h : Refreshes a row x (.ok s)) (hw : Refreshes a s y (.ok row)) (hne : x ≠ y) :
    s = row := by
  cases h
  case plain => rfl
  case written f v hf hfx hv hs =>
    have hx := Row.half_setHalf_self hs
    cases hw
    case plain => rfl
    case written hs' =>
      have hr := Row.setHalf_of_half (Row.half_setHalf_of_ne hs' hne hx)
      exact Except.ok.inj (hs.symm.trans hr)

end Refreshes

theorem Refreshed.eq_of_both {r : Row × Except FormulaError Unit} (h : Refreshed a row column r)
    (hd : row.table.declares column) (hx : Refreshes a row ⟨column, .code⟩ (.ok s))
    (hy : Refreshes a s ⟨column, .label⟩ (.ok t)) : r = (t, .ok ()) := by
  cases h
  case unknown hn => exact absurd hd hn
  case code hx'   => cases hx.unique hx'
  case label hx' hy' =>
    cases hx.unique hx'
    cases hy.unique hy'
  case both hx' hy' =>
    cases hx.unique hx'
    cases hy.unique hy'
    rfl

theorem steady_refreshHalf (row : Row) (c : Column) (half : Half) :
    Steady a (refreshHalf a row c half).run :=
  (inquires_refreshHalf row c half).steady a.store

theorem steady_refreshColumn (row : Row) (column : String) :
    Steady a (refreshColumn a row column) :=
  (inquires_refreshColumn row column).steady a.store

theorem fresh_refreshColumn (row : Row) (column : String) :
    fresh (refreshColumn a row column) = match row.table.column? column with
      | none   => (row, .error (.unknownColumn column row.table.name))
      | some c => match (refreshHalf a row c .code).value with
        | .error e => (row, .error e)
        | .ok s    => match (refreshHalf a s c .label).value with
          | .error e => (s, .error e)
          | .ok t    => (t, .ok ()) := by
  rw [refreshColumn]
  simp only [Reading.value]
  cases row.table.column? column
  case none   => rfl
  case some c =>
    dsimp only
    refine ((steady_refreshHalf row c .code).fresh_bind fun r => ?_).trans ?_
    case refine_1 =>
      cases r
      case error => exact .pure _
      case ok s  =>
        refine (steady_refreshHalf s c .label).bind fun r => ?_
        cases r <;> exact .pure _
    case refine_2 =>
      cases fresh (refreshHalf a row c .code).run
      case error => rfl
      case ok s  =>
        dsimp only
        refine ((steady_refreshHalf s c .label).fresh_bind fun r => ?_).trans ?_
        case refine_1 => cases r <;> exact .pure _
        case refine_2 => cases fresh (refreshHalf a s c .label).run <;> rfl

-- Whichever parents are cached, a half that is computed is the only one that is touched.
theorem rests_refreshHalf {c : Column} {half : Half}
    (h : ((refreshHalf a row c half).run.run cache).1 = .ok s) : Row.Rests [⟨c.id, half⟩] row s := by
  rw [refreshHalf] at h
  split at h
  case h_1 =>
    cases h
    exact .refl _ row
  case h_2 text _ =>
    split at h
    case h_1 => cases h
    case h_2 f _ =>
      split at h
      case isTrue  => cases h
      case isFalse =>
        rw [ExceptT.run_bind, run_bind] at h
        split at h
        case h_2 => cases h
        case h_1 v _ =>
          split at h
          case h_2 => cases h
          case h_1 hs =>
            cases h
            exact .of_setHalf hs (List.mem_singleton.mpr rfl)

-- A refresh that fails has not come to the label.
theorem rests_refreshColumn {e : FormulaError}
    (h : ((refreshColumn a row column).run cache).1 = (row', .error e)) :
    Row.Rests [⟨column, .code⟩] row row' := by
  rw [refreshColumn] at h
  split at h
  case h_1 =>
    cases h
    exact .refl _ row
  case h_2 c hcol =>
    obtain rfl : c.id = column := by simpa using List.find?_some hcol
    rw [run_bind] at h
    split at h
    case h_1 =>
      cases h
      exact .refl _ row
    case h_2 s hs =>
      rw [run_bind] at h
      split at h
      case h_2 => cases h
      case h_1 =>
        cases h
        exact rests_refreshHalf hs

section Built

variable (hb : Catalog.build d = .ok a.catalog) (held : a.Holds row)

include hb held

theorem refreshes_refreshHalf {c : Column} (hc : row.table.column? c.id = some c) (half : Half) :
    Refreshes a row ⟨c.id, half⟩ (refreshHalf a row c half).value := by
  rw [refreshHalf]
  obtain ⟨ht, hf⟩ | ⟨text, f, ht, hcomp, hf⟩ := Catalog.formula?_cases hb held.mem hc half
  case inl => exact ht ▸ .plain hf
  case inr =>
    have hr : f.reference = ⟨c.id, half⟩ ↔ f.column = c.id ∧ f.half = half := by
      simp [reference]
    simp only [ht, hcomp, ← hr]
    split
    case isTrue he  => exact .itself hf he
    case isFalse he =>
      have hw (v : String) : ∃ s, row.setHalf c.id half v = .ok s :=
        Row.exists_put (Table.declares_of_formula? hf) _
      rw [Reading.value_bind (steady_lookUp _ row f) ?steady]
      case steady =>
        intro v
        obtain ⟨s, hs⟩ := hw v
        rw [hs]
        exact Reading.steady_pure s
      cases hv : (lookUp a (chainLimit + 1) row f).value
      case error e => exact .failed hf he hv
      case ok v    =>
        obtain ⟨s, hs⟩ := hw v
        have hs' : Refreshes a row ⟨c.id, half⟩ (.ok s) := .written hf he hv hs
        simpa [bind, Except.bind, hs, Reading.value_pure] using hs'

theorem refreshed_refreshColumn (hc : cache.Faithful a) (column : String) :
    Refreshed a row column ((refreshColumn a row column).run cache).1 := by
  rw [(steady_refreshColumn row column cache hc).1, fresh_refreshColumn]
  cases hcol : row.table.column? column
  case none =>
    exact .unknown (by simp [Table.declares_iff_isSome, hcol])
  case some c =>
    obtain rfl : c.id = column := by simpa using List.find?_some hcol
    have hd : row.table.declares c.id := Row.declares_of_column? (by simp [hcol])
    have hcode := refreshes_refreshHalf hb held hcol .code
    dsimp only
    cases hr : (refreshHalf a row c .code).value <;> rw [hr] at hcode
    case error e => exact .code hd hcode
    case ok s    =>
      have ht := hcode.table_eq
      have hlabel := refreshes_refreshHalf hb (held.of_table_eq ht) (ht ▸ hcol) .label
      dsimp only
      cases hr : (refreshHalf a s c .label).value <;> rw [hr] at hlabel
      case error e => exact .label hd hcode hlabel
      case ok t    => exact .both hd hcode hlabel

namespace Refreshes

theorem not_leads_back (h : Refreshes a row x (.ok s)) (hf : row.table.formula? x = some f) :
    ¬ Relation.TransGen row.LeadsOn f f := by
  cases h
  case plain hn => simp [hf] at hn
  case written hf' _ hv _ =>
    cases Option.some.inj (hf.symm.trans hf')
    exact Formula.not_leads_back hb held hv

-- A half that has just been computed comes to the same again, unless it has moved the key by which
-- its own formula climbs.
theorem again (h : Refreshes a row x (.ok s))
    (hk : ∀ f, row.table.formula? x = some f → ¬ f.HangsOn a.catalog row.table x) :
    Refreshes a s x (.ok s) := by
  have ht := h.table_eq
  cases h
  case plain hn => exact .plain hn
  case written f v hf hne hv hs =>
    cases value_lookUp_written hb held hf hv hs (hk f hf) hv
    case inr hr => exact absurd rfl hr.2
    case inl hw => exact .written (ht ▸ hf) hne hw (Row.setHalf_of_half (Row.half_setHalf_self hs))

-- After another half has been computed, a half still comes to the same if and only if it has not
-- read what has changed there.
theorem again_iff (h : Refreshes a row x (.ok row)) (hw : Refreshes a row y (.ok s)) (hne : x ≠ y)
    (hx : ∀ f, row.table.formula? x = some f → ¬ f.HangsOn a.catalog row.table y)
    (hy : ∀ f, row.table.formula? y = some f → ¬ f.HangsOn a.catalog row.table y) :
    Refreshes a s x (.ok s) ↔
      ∀ f, row.table.formula? x = some f → f.ReadsFrom row y → s.text y = row.text y := by
  have ht := hw.table_eq
  cases hw
  case plain => exact ⟨fun _ _ _ _ => rfl, fun _ => h⟩
  case written g w hg _ hgw hs =>
    have hsy : s.text y = w := by simp [Row.text_setHalf hs]
    cases hf : row.table.formula? x
    case none => simpa using .plain (ht ▸ hf)
    case some f =>
      obtain ⟨hfx, hhalf, hv⟩ := (self_iff hf).mp h
      have hsx : s.text x = row.text x := by rw [Row.text_setHalf hs, if_neg hne]
      have hhalf' : s.half x.column x.half = some (row.text x) :=
        Row.half_setHalf_of_ne hs hne hhalf
      have hiff := value_lookUp_written_iff hb held hg hgw hs (hy g hg) (hx f hf) hv
      rw [self_iff (ht ▸ hf), hsx, hiff, hsy]
      simp [hfx, hhalf']

-- What a formula reads from another cell than its own is the same before and after it has been
-- computed.
theorem readsFrom_iff (h : Refreshes a row x (.ok s)) (h' : Refreshes a s x (.ok s))
    (hf : row.table.formula? x = some f) (hne : y ≠ x) : f.ReadsFrom row y ↔ f.ReadsFrom s y := by
  have ht := h.table_eq
  have ha : row.AgreesOn (· ≠ x) s := by simpa using h.rests.agrees
  constructor
  case mp => exact .of_agreesOn ha hf (h.not_leads_back hb held hf) hne
  case mpr =>
    have hl := h'.not_leads_back hb (held.of_table_eq ht) (ht ▸ hf)
    exact .of_agreesOn ha.symm (ht ▸ hf) hl hne

end Refreshes

-- A refreshed column comes to the same again if and only if its code has not been read from the
-- label, or the label, which was computed after it, has stayed the same. Left aside are codes by
-- which their own formula climbs.
theorem refreshColumn_again_iff (hc : cache.Faithful a) (hc' : cache'.Faithful a)
    (hk : ∀ f, row.table.formula? ⟨column, .code⟩ = some f →
      ¬ f.HangsOn a.catalog row.table ⟨column, .code⟩)
    (h : ((refreshColumn a row column).run cache).1 = (row', .ok ())) :
    ((refreshColumn a row' column).run cache').1 = (row', .ok ()) ↔
      ∀ f, row.table.formula? ⟨column, .code⟩ = some f → f.ReadsFrom row ⟨column, .label⟩ →
        row'.text ⟨column, .label⟩ = row.text ⟨column, .label⟩ := by
  have hr := refreshed_refreshColumn hb held hc column
  rw [h] at hr
  cases hr
  case both s hd hcode hlabel =>
    have hs := hcode.table_eq
    have ht := hlabel.table_eq
    have held_s : a.Holds s := held.of_table_eq hs
    have held_t : a.Holds row' := held_s.of_table_eq ht
    have hne : (⟨column, .label⟩ : CellHalf) ≠ ⟨column, .code⟩ := by simp
    have hcode' := hcode.again hb held hk
    have hlabel' := hlabel.again hb held_s fun f _ => not_hangsOn_label f
    have hold : s.text ⟨column, .label⟩ = row.text ⟨column, .label⟩ :=
      hcode.rests.agrees.text _ (by simp)
    have hiff := hcode'.again_iff hb held_s hlabel hne.symm (fun f _ => not_hangsOn_label f)
      fun f _ => not_hangsOn_label f
    have hagain := refreshed_refreshColumn hb held_t hc' column
    calc ((refreshColumn a row' column).run cache').1 = (row', .ok ())
      _ ↔ Refreshes a row' ⟨column, .code⟩ (.ok row') := by
        constructor
        case mp =>
          intro e
          rw [e] at hagain
          cases hagain
          case both hx hy => exact hx.eq_of_back hy hne.symm ▸ hx
        case mpr =>
          intro hx
          exact hagain.eq_of_both (ht ▸ hs ▸ hd) hx hlabel'
      _ ↔ _ := by
        rw [hiff, hs, hold]
        exact forall_congr' fun f => forall_congr' fun hf =>
          imp_congr_left (hcode.readsFrom_iff hb held hcode' hf hne).symm

-- A refresh that fails leaves the row as it was, unless the code had been computed before the label
-- of the same column failed: then the new code stays.
theorem refreshColumn_error {e : FormulaError}
    (h : ((refreshColumn a row column).run cache).1 = (row', .error e)) :
    Row.Rests [⟨column, .code⟩] row row' ∧
    (cache.Faithful a → row' = row ∨ ∃ f g v, row.table.formula? ⟨column, .code⟩ = some f ∧
      row.table.formula? ⟨column, .label⟩ = some g ∧
      (lookUp a (chainLimit + 1) row f).value = .ok v ∧ row.setHalf column .code v = .ok row' ∧
      Refreshes a row' ⟨column, .label⟩ (.error e)) := by
  refine ⟨rests_refreshColumn h, fun hc => ?_⟩
  have hr := refreshed_refreshColumn hb held hc column
  rw [h] at hr
  cases hr
  case unknown => exact .inl rfl
  case code    => exact .inl rfl
  case label hd hcode hlabel =>
    have ht := hcode.table_eq
    obtain ⟨g, hg⟩ := hlabel.exists_formula
    cases hcode
    case plain => exact .inl rfl
    case written f v hf _ hv hs => exact .inr ⟨f, g, v, hf, ht ▸ hg, hv, hs, hlabel⟩

end Built

-- The row that a refresh of the column leaves.
def refreshedRow (a : Archive) (row : Row) (column : String) : Row :=
  (fresh (refreshColumn a row column)).1

theorem run_refreshColumn {r : Except FormulaError Unit}
    (h : ((refreshColumn a row column).run {}).1.2 = r) :
    ((refreshColumn a row column).run {}).1 = (refreshedRow a row column, r) :=
  Prod.ext rfl h

-- Columns that are computed from a dye. The code of the mark is read from its own label, and no
-- table declares the ghost.
namespace Dyes

def definition : CatalogDefinition where
  tables := [
    { name := "vial",
      columns := [
        { id := "dye" },
        { id := "tint", codeFormula := some "%dye.code", labelFormula := some "%tint.code" },
        { id := "mark", codeFormula := some "%mark.label", labelFormula := some "%dye.code" },
        { id := "lost", codeFormula := some "%dye.code", labelFormula := some "%ghost.code" }] }]

def records : List (String × List Record) := [
  ("vial", [{ id := ⟨1⟩, cells := [("dye", .plain "red"), ("mark", ⟨"", "old"⟩)] }])]

def archive : Archive :=
  let catalog := (Catalog.build definition).toOption.getD ⟨[]⟩
  { catalog, store := (Store.ofTables catalog records).toOption.getD {} }

def vial : Row :=
  (archive.store.rows "vial").head (by decide)

theorem build_eq : Catalog.build definition = .ok archive.catalog := by decide

theorem holds_vial : archive.Holds vial := by decide

def tinted : Row :=
  refreshedRow archive vial "tint"

def marked : Row :=
  refreshedRow archive vial "mark"

def remarked : Row :=
  refreshedRow archive marked "mark"

def lost : Row :=
  refreshedRow archive vial "lost"

end Dyes

open Dyes in
theorem refreshColumn_again_tint :
    ((refreshColumn archive vial "tint").run {}).1 = (tinted, .ok ()) ∧
    tinted.get "tint" = some ⟨"red", "red"⟩ ∧
    ((refreshColumn archive tinted "tint").run {}).1 = (tinted, .ok ()) := by
  have h : ((refreshColumn archive vial "tint").run {}).1 = (tinted, .ok ()) :=
    run_refreshColumn (by decide +kernel)
  refine ⟨h, by decide +kernel, ?_⟩
  refine (refreshColumn_again_iff build_eq holds_vial .empty .empty ?_ h).mpr ?_
  case refine_1 => exact fun f _ => not_hangsOn_of_keys f holds_vial (by decide)
  case refine_2 => exact fun _ _ hr => absurd (by decide : vial.text ⟨"tint", .label⟩ = "") hr.1

-- The second refresh takes the code of the mark from the label that the first one has computed.
open Dyes in
theorem refreshColumn_not_idempotent :
    ¬ ∀ (d : CatalogDefinition) (a : Archive) (row row' : Row) (column : String),
      Catalog.build d = .ok a.catalog → a.Holds row →
      ((refreshColumn a row column).run {}).1 = (row', .ok ()) →
      ((refreshColumn a row' column).run {}).1 = (row', .ok ()) := by
  intro h
  have hr := h definition archive vial marked "mark" build_eq holds_vial
    (run_refreshColumn (by decide +kernel))
  have hfirst : marked.get "mark" = some ⟨"old", "red"⟩ := by decide +kernel
  have hagain : remarked.get "mark" = some ⟨"red", "red"⟩ := by decide +kernel
  have he : remarked = marked := congrArg (·.1) hr
  rw [he, hfirst] at hagain
  exact absurd hagain (by decide)

open Dyes in
theorem refreshColumn_error_lost :
    ((refreshColumn archive vial "lost").run {}).1 =
      (lost, .error (.unknownColumn "ghost" "vial")) ∧
    lost.get "lost" = some ⟨"red", ""⟩ ∧ Row.Rests [⟨"lost", .code⟩] vial lost ∧
    vial.setHalf "lost" .code "red" = .ok lost := by
  have h : ((refreshColumn archive vial "lost").run {}).1 =
      (lost, .error (.unknownColumn "ghost" "vial")) := run_refreshColumn (by decide +kernel)
  have hafter : lost.get "lost" = some ⟨"red", ""⟩ := by decide +kernel
  obtain ⟨hr, hx⟩ := refreshColumn_error build_eq holds_vial h
  refine ⟨h, hafter, hr, ?_⟩
  obtain e | ⟨f, g, v, _, _, _, hs, _⟩ := hx .empty
  case inl =>
    have hbefore : vial.get "lost" = none := by decide +kernel
    rw [e, hbefore] at hafter
    cases hafter
  case inr =>
    have hv := Row.half_setHalf_self (x := ⟨"lost", .code⟩) hs
    have hred : lost.half "lost" .code = some "red" := by decide +kernel
    exact Option.some.inj (hv.symm.trans hred) ▸ hs

-- The code of the lost column is there although its label has failed.
open Dyes in
theorem refreshColumn_not_atomic :
    ¬ ∀ (d : CatalogDefinition) (a : Archive) (row row' : Row) (column : String) (e : FormulaError),
      Catalog.build d = .ok a.catalog → a.Holds row →
      ((refreshColumn a row column).run {}).1 = (row', .error e) →
      row'.id = row.id ∧ row'.version = row.version ∧ ∀ k, row'.get k = row.get k := by
  intro h
  obtain ⟨_, _, hr⟩ := h definition archive vial lost "lost"
    (.unknownColumn "ghost" "vial") build_eq holds_vial (run_refreshColumn (by decide +kernel))
  have hafter : lost.get "lost" = some ⟨"red", ""⟩ := by decide +kernel
  have hbefore : vial.get "lost" = none := by decide +kernel
  rw [hr, hbefore] at hafter
  cases hafter

end Formula

end ReportExchange
