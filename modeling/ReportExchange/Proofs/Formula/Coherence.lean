import ReportExchange.Proofs.Formula.Refresh

namespace ReportExchange

namespace Table

-- No key that the formula of the cell is led to is itself computed.
def AnchoredAt (c : Catalog) (t : Table) (x : CellHalf) : Prop :=
  ∀ f key, t.formula? x = some f → f.HangsOn c t key → t.formula? key = none

variable {c : Catalog} {t : Table} {x : CellHalf} {f : Formula}

theorem AnchoredAt.reference (h : t.AnchoredAt c x) (hf : t.formula? x = some f) :
    t.AnchoredAt c f.reference :=
  fun _ key hg hk => h f key hf (.next hg hk)

-- A formula that stays in the row is anchored if what it reads is.
theorem AnchoredAt.of_reference (h : t.AnchoredAt c f.reference) (hf : t.formula? x = some f)
    (hd : t.declares f.column) : t.AnchoredAt c x := by
  intro f' key hf' hk
  cases Option.some.inj (hf.symm.trans hf')
  cases hk with
  | climb hn _ _ => exact absurd hd hn
  | next hg hk   => exact h _ key hg hk

theorem anchoredAt_of_eq_none (h : t.formula? x = none) : t.AnchoredAt c x :=
  fun _ _ hf => by simp [h] at hf

end Table

namespace Formula

variable {d : CatalogDefinition} {a : Archive} {row row' s t : Row} {x y : CellHalf} {f : Formula}
variable {v : String} {n : Nat} {column : String}

-- Whoever has been led to an ancestor has found a key to go by.
theorem text_key_ne_empty {up : Row} {r : Relation} {rest : List Relation}
    (hu : (ancestor a row column).value = .ok up)
    (hp : a.catalog.pathToAncestor row.table.name column = some (r :: rest)) :
    row.text ⟨r.foreignKey, .code⟩ ≠ "" := by
  intro he
  have hn : row.parentId r.parent = none := by
    have hr : RowId.read? "" = none := by decide
    rw [Relation.foreignKey] at he
    simp [Row.parentId_eq, he, hr]
  rw [value_ancestor, hp] at hu
  simp only [value_follow_cons, hn] at hu
  cases hu

-- A row with some of its formula cells computed: the others are still empty.
structure Partly (a : Archive) (row s : Row) : Prop where
  table    : s.table = row.table
  plain    : ∀ x, row.table.formula? x = none → s.text x = row.text x
  computed : ∀ x, (row.table.formula? x).isSome → s.text x = "" ∨
    Outcome a row x (.ok (s.text x)) ∧ row.table.AnchoredAt a.catalog x

namespace Partly

-- What is looked up in such a row is the outcome. A computed key on the way could only be one that
-- has no text, and then there is no parent to go on to.
theorem outcome (h : Partly a row s) (hb : Catalog.build d = .ok a.catalog) (held : a.Holds row)
    (hf : row.table.formula? x = some f)
    (hk : ∀ key, f.HangsOn a.catalog row.table key → (row.table.formula? key).isSome →
      s.text key = "") (hn : n ≤ chainLimit + 1) (hv : (lookUp a n s f).value = .ok v) :
    Outcome a row x (.ok v) ∧ row.table.AnchoredAt a.catalog x := by
  have held' : a.Holds s := held.of_table_eq h.table
  induction n generalizing f x
  case zero => cases hv
  case succ n hi =>
    by_cases hd : row.table.declares f.column
    case neg =>
      rw [value_lookUp_of_not_declares (h.table ▸ hd)] at hv
      obtain ⟨up, hu, hv⟩ := bind_eq_ok.mp hv
      have hp : row.table.formula? f.reference = none := formula?_eq_none_of_not_declares hd
      have plain_key (r : Relation) (rest : List Relation)
          (hp : a.catalog.pathToAncestor row.table.name f.column = some (r :: rest)) :
          row.table.formula? ⟨r.foreignKey, .code⟩ = none := by
        by_contra hc
        have he := hk _ (.climb hd hp rfl) (Option.isSome_iff_ne_none.mpr hc)
        exact text_key_ne_empty hu (h.table ▸ hp) he
      have ha : a.above s f = a.above row f :=
        Archive.above_congr held h.table fun r rest hp => h.plain _ (plain_key r rest hp)
      have hup : a.above row f = .ok v := by
        rw [← ha, Archive.above, hu]
        exact value_lookUp_mono hv (Nat.le_of_succ_le_succ hn)
      refine ⟨hup ▸ .above hf hd, fun f' key hf' hkey => ?_⟩
      cases Option.some.inj (hf.symm.trans hf')
      cases hkey with
      | climb _ hpath e => exact e ▸ plain_key _ _ hpath
      | next hg _       => simp [hp] at hg
    case pos =>
      rw [value_lookUp_of_declares hb held' (h.table ▸ hd), h.table] at hv
      cases hg : row.table.formula? f.reference
      case none =>
        have ht : v = row.text f.reference := by
          rw [← h.plain _ hg]
          split at hv
          case isTrue he  => simp_all
          case isFalse he => exact (Except.ok.inj hv).symm
        exact ⟨ht ▸ .plain hf hd hg, .of_reference (Table.anchoredAt_of_eq_none hg) hf hd⟩
      case some g =>
        have ho : Outcome a row f.reference (.ok v) ∧
            row.table.AnchoredAt a.catalog f.reference := by
          split at hv
          case isTrue he =>
            rw [hg] at hv
            exact hi hg (fun key hkey => hk key (.next hg hkey)) (Nat.le_of_succ_le hn) hv
          case isFalse he =>
            cases hv
            exact (h.computed f.reference (by simp [hg])).resolve_left he
        exact ⟨.value hf ho.1, .of_reference ho.2 hf hd⟩

-- Computing one more cell keeps such a row, and gives the cell its outcome.
theorem refreshes (h : Partly a row s) (hb : Catalog.build d = .ok a.catalog) (held : a.Holds row)
    (hk : ∀ f key, row.table.formula? x = some f → f.HangsOn a.catalog row.table key →
      (row.table.formula? key).isSome → s.text key = "") (hr : Refreshes a s x (.ok t)) :
    Partly a row t ∧ ((row.table.formula? x).isSome →
      Outcome a row x (.ok (t.text x)) ∧ row.table.AnchoredAt a.catalog x) := by
  cases hr
  case plain hn =>
    rw [h.table] at hn
    exact ⟨h, by simp [hn]⟩
  case written f v hf _ hv hs =>
    rw [h.table] at hf
    have htext := Row.text_setHalf hs
    have hx : Outcome a row x (.ok (t.text x)) ∧ row.table.AnchoredAt a.catalog x := by
      rw [htext, if_pos rfl]
      exact h.outcome hb held hf (fun key => hk f key hf) (Nat.le_refl _) hv
    refine ⟨⟨(Row.frame_of_put hs).1.trans h.table, fun y hy => ?_, fun y hy => ?_⟩, fun _ => hx⟩
    case refine_1 =>
      have hne : y ≠ x := fun e => by simp [e, hf] at hy
      rw [htext, if_neg hne, h.plain y hy]
    case refine_2 =>
      by_cases e : y = x
      case pos => exact .inr (e ▸ hx)
      case neg =>
        rw [htext, if_neg e]
        exact h.computed y hy

end Partly

namespace Sweep

-- What a sweep keeps of the cells that are anchored and come to a value, whatever becomes of the
-- others: they wait, or they hold the value.
structure Heeds (a : Archive) (row : Row) (s : Sweep) : Prop where
  table   : s.row.table = row.table
  plain   : ∀ x, row.table.formula? x = none → s.row.text x = row.text x
  pending : ∀ x ∈ s.pending, (row.table.formula? x).isSome
  failed  : ∀ x ∈ s.failed, (row.table.formula? x).isSome
  faults  : ∀ f ∈ s.faults, (row.table.formula? f.cell).isSome
  heeded  : ∀ x v, Outcome a row x (.ok v) → row.table.AnchoredAt a.catalog x →
    (x ∈ s.pending ∨ s.row.text x = v) ∧ x ∉ s.failed ∧ ∀ f ∈ s.faults, f.cell ≠ x

variable {s : Sweep}

namespace Heeds

-- Such a cell gets its value, or it waits for another one of its kind.
theorem evaluate_cases (hs : s.Heeds a row) (held : a.Holds row) (ho : Outcome a row x (.ok v))
    (ha : row.table.AnchoredAt a.catalog x) (hf : row.table.formula? x = some f) :
    (evaluate a s f).value = .ok (some v) ∨
    (evaluate a s f).value = .ok none ∧ f.reference ∈ s.pending := by
  rw [value_evaluate, hs.table]
  obtain ⟨hd, hup⟩ | ⟨hd, hr, rfl⟩ | ⟨hd, ho'⟩ := ho.inv_ok hf
  case inl =>
    have hu : a.above s.row f = a.above row f :=
      Archive.above_congr held hs.table fun r rest hp => hs.plain _ (ha f _ hf (.climb hd hp rfl))
    simp [hd, hu, hup, Except.map]
  case inr.inl =>
    have hfail : f.reference ∉ s.failed := fun h => by simpa [hr] using hs.failed _ h
    have hpend : f.reference ∉ s.pending := fun h => by simpa [hr] using hs.pending _ h
    simp [hd, hfail, hpend, hs.plain _ hr]
  case inr.inr =>
    obtain ⟨hv, hfail, _⟩ := hs.heeded _ v ho' (ha.reference hf)
    by_cases hp : f.reference ∈ s.pending
    case pos => exact .inr ⟨by simp [hd, hfail, hp], hp⟩
    case neg => exact .inl (by simp [hd, hfail, hp, hv.resolve_left hp])

-- A cell that comes to a value may take it, or wait on.
theorem settle (hs : s.Heeds a row) (hy : y ∈ s.pending)
    (hv : ∀ w, Outcome a row y (.ok w) → row.table.AnchoredAt a.catalog y → v = w) :
    (s.settle y v).Heeds a row := by
  obtain ⟨g, hg⟩ := Option.isSome_iff_exists.mp (hs.pending y hy)
  have hd : s.row.table.declares y.column := hs.table ▸ Table.declares_of_formula? hg
  obtain ⟨r, hr, hw⟩ := exists_settle hd v
  have htext := Row.text_setHalf hr
  rw [hw]
  refine {
    table   := (Row.frame_of_put hr).1.trans hs.table
    failed  := hs.failed
    faults  := hs.faults
    plain   := fun x hx => ?_
    pending := fun x hx => hs.pending x (List.mem_of_mem_erase hx)
    heeded  := fun x w ho ha => ?_ }
  case refine_1 =>
    have hne : x ≠ y := fun e => by simp [e, hg] at hx
    rw [htext, if_neg hne, hs.plain x hx]
  case refine_2 =>
    obtain ⟨hx, hfail, hfault⟩ := hs.heeded x w ho ha
    refine ⟨?_, hfail, hfault⟩
    by_cases e : x = y
    case pos => exact .inr (by rw [htext, if_pos e, hv w (e ▸ ho) (e ▸ ha)])
    case neg => exact hx.imp (List.mem_erase_of_ne e).mpr fun ht => by rw [htext, if_neg e, ht]

-- A cell that fails is none of those that are anchored and come to a value.
theorem fail (hs : s.Heeds a row) {cause : FormulaError} (hy : y ∈ s.pending)
    (hn : ∀ w, Outcome a row y (.ok w) → ¬ row.table.AnchoredAt a.catalog y) :
    (s.fail y cause).Heeds a row := by
  have hf := hs.pending y hy
  refine {
    table   := hs.table
    plain   := hs.plain
    pending := fun x hx => hs.pending x (List.mem_of_mem_erase hx)
    failed  := List.forall_mem_cons.mpr ⟨hf, hs.failed⟩
    faults  := fun f hm => ?_
    heeded  := fun x w ho ha => ?_ }
  case refine_1 =>
    cases List.mem_append.mp hm
    case inl hm => exact hs.faults f hm
    case inr hm => exact List.mem_singleton.mp hm ▸ hf
  case refine_2 =>
    have hne : x ≠ y := fun e => hn w (e ▸ ho) (e ▸ ha)
    obtain ⟨hx, hfail, hfault⟩ := hs.heeded x w ho ha
    have hwaits := hx.imp_left (List.mem_erase_of_ne hne).mpr
    refine ⟨hwaits, by simp [Sweep.fail, hne, hfail], fun f hm => ?_⟩
    cases List.mem_append.mp hm
    case inl hm => exact hfault f hm
    case inr hm => exact List.mem_singleton.mp hm ▸ hne.symm

-- An evaluation keeps what the sweep keeps.
theorem absorb (hs : s.Heeds a row) (held : a.Holds row) (hx : x ∈ s.pending)
    (hf : row.table.formula? x = some f) : (s.absorb x (evaluate a s f).value).Heeds a row := by
  have hv (w : String) (ho : Outcome a row x (.ok w)) (ha : row.table.AnchoredAt a.catalog x) :=
    hs.evaluate_cases held ho ha hf
  match e : (evaluate a s f).value with
  | .ok none     => exact hs
  | .error cause =>
    refine hs.fail hx fun w ho ha => ?_
    have hw := hv w ho ha
    simp [e] at hw
  | .ok (some v) =>
    refine hs.settle hx fun w ho ha => ?_
    have hw := hv w ho ha
    simpa [e] using hw

-- When nothing can be evaluated any more, such a cell no longer waits.
theorem not_pending_of_stuck (hs : s.Heeds a row) (held : a.Holds row)
    (hn : (row.table.columns.map (·.id)).Nodup) (hu : s.Stuck a (targets row.table))
    (ho : Outcome a row x (.ok v)) (ha : row.table.AnchoredAt a.catalog x) : x ∉ s.pending := by
  have next {x : CellHalf} {f : Formula} (ho : Outcome a row x (.ok v))
      (ha : row.table.AnchoredAt a.catalog x) (hf : row.table.formula? x = some f)
      (hx : x ∈ s.pending) : f.reference ∈ s.pending := by
    have hnone := hu ⟨x, f⟩ ((mem_targets hn).mpr hf) hx
    obtain hv | hv := hs.evaluate_cases held ho ha hf
    case inl => simp [hv] at hnone
    case inr => exact hv.2
  generalize hr : Except.ok v = r at ho
  induction ho with
  | above hf hd =>
    intro hx
    have hp := hs.pending _ (next (hr ▸ .above hf hd) ha hf hx)
    simp [formula?_eq_none_of_not_declares (x := Formula.reference _) hd] at hp
  | plain hf hd hp =>
    intro hx
    simpa [hp] using hs.pending _ (next (hr ▸ .plain hf hd hp) ha hf hx)
  | value hf ho hi =>
    cases hr
    exact fun hx => hi (ha.reference hf) rfl (next (.value hf ho) ha hf hx)
  | failed  => cases hr
  | looping => cases hr

end Heeds

theorem heeds_start {row : Row} (hn : (row.table.columns.map (·.id)).Nodup)
    (hm : malformedFaults row = []) : (start row).Heeds a row.uncomputed := by
  have ht : row.uncomputed.table = row.table := row.spares_uncomputed.table
  refine {
    table   := rfl
    plain   := fun _ _ => rfl
    pending := fun x hx => ht ▸ (mem_cells_iff hn).mp hx
    failed  := by simp [start]
    faults  := by simp [start, hm]
    heeded  := fun x v ho _ => ⟨.inl ?_, by simp [start], by simp [start, hm]⟩ }
  exact (mem_cells_iff hn).mpr (ht ▸ ho.isSome)

end Sweep

section Built

variable (hb : Catalog.build d = .ok a.catalog) (held : a.Holds row)

include hb held

-- Whatever becomes of the other formula cells of a row, those that are anchored and come to a value
-- get it.
theorem resolveRow_anchored :
    (∀ f ∈ (fresh (resolveRow a row)).2, (row.table.formula? f.cell).isSome) ∧
    ∀ x v, Outcome a row.uncomputed x (.ok v) → row.table.AnchoredAt a.catalog x →
      (fresh (resolveRow a row)).1.text x = v ∧ ∀ f ∈ (fresh (resolveRow a row)).2, f.cell ≠ x := by
  have hn := (Catalog.sound_of_build hb).columns _ held.mem
  have ht : row.uncomputed.table = row.table := row.spares_uncomputed.table
  have held' : a.Holds row.uncomputed := held.of_table_eq ht
  rw [fresh_resolveRow]
  dsimp only
  generalize hs : fresh (passes a (targets row.table) ((targets row.table).length + 1)
    (Sweep.start row)) = s
  have hheeds : s.Heeds a row.uncomputed := by
    rw [← hs]
    refine fresh_passes_induction (fun t hm s hp hs => ?_)
      (Sweep.heeds_start hn (malformedFaults_of_build hb held))
    exact hs.absorb held' hp (ht ▸ (mem_targets hn).mp hm)
  have hstuck : s.Stuck a (targets row.table) := hs ▸ stuck_passes (by simp [Sweep.start])
  have hleft (f : CellFault) (hf : f ∈ leftFaults row s.pending) : f.cell ∈ s.pending := by
    obtain ⟨x, hx, rfl⟩ := List.mem_map.mp hf
    simpa [pin] using (List.mem_filter.mp hx).2
  constructor
  case left =>
    intro f hf
    cases List.mem_append.mp hf
    case inl hf => exact ht ▸ hheeds.faults f hf
    case inr hf => exact ht ▸ hheeds.pending _ (hleft f hf)
  case right =>
    intro x v ho ha
    obtain ⟨hv, _, hfaults⟩ := hheeds.heeded x v ho (ht ▸ ha)
    have hp : x ∉ s.pending :=
      hheeds.not_pending_of_stuck held' (ht ▸ hn) (ht ▸ hstuck) ho (ht ▸ ha)
    refine ⟨hv.resolve_left hp, fun f hf e => ?_⟩
    cases List.mem_append.mp hf
    case inl hf => exact hfaults f hf e
    case inr hf => exact hp (e ▸ hleft f hf)

-- A column that has been refreshed in a row without computed cells comes to the same when the whole
-- row is resolved. Left aside are labels that are reached by a code computed in the same column.
theorem resolveRow_of_refreshColumn {cache cache' : ParentCache} (hc : cache.Faithful a)
    (hc' : cache'.Faithful a) (he : ∀ x, (row.table.formula? x).isSome → row.text x = "")
    (hk : ∀ f, row.table.formula? ⟨column, .label⟩ = some f →
      f.HangsOn a.catalog row.table ⟨column, .code⟩ → row.table.formula? ⟨column, .code⟩ = none)
    (h : ((refreshColumn a row column).run cache).1 = (row', .ok ())) :
    (∀ f ∈ ((resolveRow a row).run cache').1.2, f.cell.column ≠ column) ∧
    ∀ half, (row.table.formula? ⟨column, half⟩).isSome →
      ((resolveRow a row).run cache').1.1.text ⟨column, half⟩ = row'.text ⟨column, half⟩ := by
  have hn := (Catalog.sound_of_build hb).columns _ held.mem
  have ht : row.uncomputed.table = row.table := row.spares_uncomputed.table
  have held' : a.Holds row.uncomputed := held.of_table_eq ht
  have hpart : Partly a row.uncomputed row := by
    refine ⟨ht.symm, fun x hx => ?_, fun x hx => .inl (he x (ht ▸ hx))⟩
    simp [Row.text_uncomputed hn, ht ▸ hx]
  have hr := refreshed_refreshColumn hb held hc column
  rw [h] at hr
  cases hr
  case both s _ hcode hlabel =>
    obtain ⟨hparts, hocode⟩ := hpart.refreshes hb held'
      (fun _ key _ _ hkey => he key (ht ▸ hkey)) hcode
    have keys (f : Formula) (key : CellHalf) (hf : row.table.formula? ⟨column, .label⟩ = some f)
        (hkey : f.HangsOn a.catalog row.table key) (hsome : (row.table.formula? key).isSome) :
        s.text key = "" := by
      have hne : key ≠ ⟨column, .code⟩ := fun e => by simp [e, hk f hf (e ▸ hkey)] at hsome
      rw [hcode.rests.agrees.text key (by simpa using hne), he key hsome]
    obtain ⟨_, holabel⟩ := hparts.refreshes hb held' (ht ▸ keys) hlabel
    have computed (half : Half) (hf : (row.table.formula? ⟨column, half⟩).isSome) :
        Outcome a row.uncomputed ⟨column, half⟩ (.ok (row'.text ⟨column, half⟩)) ∧
        row.table.AnchoredAt a.catalog ⟨column, half⟩ := by
      rw [ht] at hocode holabel
      cases half
      case label => exact holabel hf
      case code  =>
        rw [hlabel.rests.agrees.text _ (by simp)]
        exact hocode hf
    obtain ⟨hfaults, hvalues⟩ := resolveRow_anchored hb held
    rw [(steady_resolveRow row cache' hc').1]
    refine ⟨fun f hf e => ?_, fun half hf => ?_⟩
    case refine_1 =>
      subst e
      have ⟨ho, ha⟩ := computed f.cell.half (hfaults f hf)
      exact (hvalues _ _ ho ha).2 f hf rfl
    case refine_2 =>
      have ⟨ho, ha⟩ := computed half hf
      exact (hvalues _ _ ho ha).1

end Built

-- Boxes in freezers and rooms. The key of a box's freezer is computed from its slot, and labelled
-- with the site of that freezer; the tag is labelled with the unit of the room.
namespace Boxes

def definition : CatalogDefinition where
  tables := [
    { name := "room", columns := [{ id := "unit" }] },
    { name := "freezer", columns := [{ id := "site" }] },
    { name := "box",
      columns := [
        { id := "freezerId", codeFormula := some "%slot.code", labelFormula := some "%site.code" },
        { id := "tag", codeFormula := some "%slot.code", labelFormula := some "%unit.code" },
        { id := "slot", codeFormula := some "%shelf.code" },
        { id := "shelf" }] }]
  relations := [{ parent := "room", child := "box" }, { parent := "freezer", child := "box" }]

def records : List (String × List Record) := [
  ("room", [{ id := ⟨1⟩, cells := [("unit", .plain "U2")] }]),
  ("freezer", [{ id := ⟨1⟩, cells := [("site", .plain "north")] }]),
  ("box", [{ id := ⟨1⟩, cells := [("roomId", .plain "1"), ("shelf", .plain "1")] }])]

def archive : Archive :=
  let catalog := (Catalog.build definition).toOption.getD ⟨[]⟩
  { catalog, store := (Store.ofTables catalog records).toOption.getD {} }

def box : Row :=
  (archive.store.rows "box").head (by decide)

theorem build_eq : Catalog.build definition = .ok archive.catalog := by decide

theorem holds_box : archive.Holds box := by decide

theorem box_uncomputed {x : CellHalf} (hx : (box.table.formula? x).isSome) : box.text x = "" := by
  have hcells : ∀ x ∈ (targets box.table).map (·.cell), box.text x = "" := by decide
  have hn := (Catalog.sound_of_build build_eq).columns _ holds_box.mem
  exact hcells x ((mem_cells_iff hn).mpr hx)

def tagged : Row :=
  refreshedRow archive box "tag"

def placed : Row :=
  refreshedRow archive box "freezerId"

end Boxes

open Boxes in
theorem resolveRow_of_refreshColumn_tag :
    ((refreshColumn archive box "tag").run {}).1 = (tagged, .ok ()) ∧
    tagged.get "tag" = some ⟨"1", "U2"⟩ ∧
    (∀ f ∈ ((resolveRow archive box).run {}).1.2, f.cell.column ≠ "tag") ∧
    ((resolveRow archive box).run {}).1.1.text ⟨"tag", .label⟩ = tagged.text ⟨"tag", .label⟩ := by
  have h : ((refreshColumn archive box "tag").run {}).1 = (tagged, .ok ()) :=
    run_refreshColumn (by decide +kernel)
  have hk (f : Formula) (_ : box.table.formula? ⟨"tag", .label⟩ = some f)
      (hf : f.HangsOn archive.catalog box.table ⟨"tag", .code⟩) :
      box.table.formula? ⟨"tag", .code⟩ = none :=
    absurd hf (not_hangsOn_of_keys f holds_box (by decide))
  have hr := resolveRow_of_refreshColumn build_eq holds_box .empty .empty
    (fun _ => box_uncomputed) hk h
  exact ⟨h, by decide +kernel, hr.1, hr.2 .label (by decide)⟩

-- Resolving the row looks for the freezer of the box before its key has been computed.
open Boxes in
theorem resolveRow_not_of_refreshColumn :
    ¬ ∀ (d : CatalogDefinition) (a : Archive) (row row' : Row) (column : String),
      Catalog.build d = .ok a.catalog → a.Holds row →
      (∀ x, (row.table.formula? x).isSome → row.text x = "") →
      ((refreshColumn a row column).run {}).1 = (row', .ok ()) →
      (∀ f ∈ ((resolveRow a row).run {}).1.2, f.cell.column ≠ column) ∧
      ∀ half, (row.table.formula? ⟨column, half⟩).isSome →
        ((resolveRow a row).run {}).1.1.text ⟨column, half⟩ = row'.text ⟨column, half⟩ := by
  intro h
  obtain ⟨_, hv⟩ := h definition archive box placed "freezerId" build_eq holds_box
    (fun _ => box_uncomputed) (run_refreshColumn (by decide +kernel))
  have hlabel := hv .label (by decide)
  have hrefreshed : placed.text ⟨"freezerId", .label⟩ = "north" := by decide +kernel
  have hresolved : ((resolveRow archive box).run {}).1.1.text ⟨"freezerId", .label⟩ = "" := by
    decide +kernel
  rw [hrefreshed, hresolved] at hlabel
  exact absurd hlabel (by decide)

end Formula

end ReportExchange
