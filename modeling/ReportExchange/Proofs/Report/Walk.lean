import ReportExchange.Proofs.Report.Visits
import ReportExchange.Report.Export

namespace ReportExchange

namespace Walk

variable {a : Archive} {w w' w'' : Walk} {f : Frame} {rest : List Frame}

-- What is known of a walk between two rows.
structure Ready (a : Archive) (w : Walk) : Prop where
  cache : w.cache.Faithful a
  held  : ∀ f ∈ w.stack, a.Holds f.row

-- The visits that a stack still stands for.
def pending (a : Archive) (h : a.Sound) (stack : List Frame) : List Visit :=
  stack.flatMap fun f => a.visits h f.row f.inherited

-- The second walk has gone through the given visits since the first.
structure Passed (vs : List Visit) (w w' : Walk) : Prop where
  visited : w'.visited = w.visited + vs.length
  results : w'.results = w.results ++ vs.filterMap (·.record?)
  faults  : w'.faults = w.faults ++ vs.flatMap (·.faults)

namespace Passed

variable {vs us : List Visit}

theorem refl (w : Walk) : Passed [] w w where
  visited := rfl
  results := (List.append_nil _).symm
  faults  := (List.append_nil _).symm

theorem trans (h₁ : Passed vs w w') (h₂ : Passed us w' w'') : Passed (vs ++ us) w w'' where
  visited := by rw [h₂.visited, h₁.visited, List.length_append, Nat.add_assoc]
  results := by rw [h₂.results, h₁.results, List.filterMap_append, List.append_assoc]
  faults  := by rw [h₂.faults, h₁.faults, List.flatMap_append, List.append_assoc]

end Passed

theorem refresh_eq (hc : w.cache.Faithful a) (row : Row) :
    refresh a w row = (((a.resolved row).1, failedColumns (a.resolved row).2),
      { w with
        cache  := ((Formula.resolveRow a row).run w.cache).2
        faults := w.faults ++ (a.resolved row).2 }) := by
  rw [Archive.resolved, ← (Formula.steady_resolveRow row w.cache hc).1]
  rfl

-- The walk after the visit to its first row.
def visiting (a : Archive) (w : Walk) (f : Frame) (rest : List Frame) : Walk :=
  let v := Visit.of a f.row f.inherited
  { stack   := ((a.below v.row).map fun c => ⟨c, v.fields, f.depth + 1⟩) ++ rest
    cache   := ((Formula.resolveRow a f.row).run w.cache).2
    visited := w.visited + 1
    results := if v.row.table.generatesRecord then w.results ++ [v.fields] else w.results
    faults  := w.faults ++ v.faults }

theorem step_eq (h : a.Sound) (hw : w.Ready a) (hs : w.stack = f :: rest) :
    step a w = .ok (visiting a w f rest) := by
  have held := hw.held f (hs ▸ List.mem_cons_self)
  have hr := refresh_eq (w := { w with stack := rest }) hw.cache f.row
  have hb : childrenOf a (a.resolved f.row).1 = .ok (a.below (a.resolved f.row).1) :=
    h.childrenOf_eq (held.visit f.inherited)
  have hf : f.inherited.extend
      (ownFields (a.resolved f.row).1 (failedColumns (a.resolved f.row).2)) =
      (Visit.of a f.row f.inherited).fields := by
    rw [← Visit.extend_own, ← Visit.ownFields_eq]
    rfl
  rw [step, hs]
  simp only [hr, visit, hb, hf]
  rfl

theorem ready_visiting (h : a.Sound) (hw : w.Ready a) (hs : w.stack = f :: rest) :
    (visiting a w f rest).Ready a where
  cache := (Formula.steady_resolveRow f.row w.cache hw.cache).2
  held x hx := by
    cases List.mem_append.mp hx
    case inr hx => exact hw.held x (hs ▸ List.mem_cons_of_mem _ hx)
    case inl hx =>
      have ⟨c, hc, e⟩ := List.mem_map.mp hx
      exact e ▸ h.holds_below hc

-- A visit leaves those that follow on the stack.
theorem pending_visiting (h : a.Sound) (hw : w.Ready a) (hs : w.stack = f :: rest) :
    pending a h w.stack =
      Visit.of a f.row f.inherited :: pending a h (visiting a w f rest).stack := by
  rw [hs, pending, List.flatMap_cons, Archive.visits_eq h (hw.held f (hs ▸ List.mem_cons_self))]
  simp [pending, visiting, List.flatMap_map]

-- One step goes through one visit.
theorem step_ok (h : a.Sound) (hw : w.Ready a) (hs : w.stack = f :: rest) :
    ∃ w', step a w = .ok w' ∧ w'.Ready a ∧ ∃ v, Passed [v] w w' ∧
      pending a h w.stack = v :: pending a h w'.stack := by
  let v := Visit.of a f.row f.inherited
  refine ⟨visiting a w f rest, step_eq h hw hs, ready_visiting h hw hs, v, ?_,
    pending_visiting h hw hs⟩
  refine ⟨rfl, ?_, by simp [visiting, v]⟩
  by_cases hg : v.row.table.generatesRecord <;> simp [visiting, v, hg, Visit.record?]

theorem run_ok (h : a.Sound) (hw : w.Ready a) {n : Nat}
    (hn : (pending a h w.stack).length ≤ n) :
    ∃ w', run a n w = .ok w' ∧ Passed (pending a h w.stack) w w' := by
  induction n generalizing w
  case zero =>
    have e := List.length_eq_zero_iff.mp (Nat.le_zero.mp hn)
    exact ⟨w, rfl, e ▸ .refl w⟩
  case succ n hi =>
    cases hs : w.stack
    case nil =>
      refine ⟨w, ?_, .refl w⟩
      simp [run, hs]
    case cons f rest =>
      have ⟨mid, hm, hr, v, hp, e⟩ := step_ok h hw hs
      rw [e, List.length_cons] at hn
      have ⟨w', hw', hp'⟩ := hi hr (Nat.le_of_succ_le_succ hn)
      refine ⟨w', ?_, ?_⟩
      case refine_1 => simp [run, hs, hm, hw']
      case refine_2 => exact hs ▸ e ▸ hp.trans hp'

variable {root : Row}

theorem pending_root (h : a.Sound) (root : Row) :
    pending a h [⟨root, [], 0⟩] = a.visits h root [] := by
  simp [pending]

-- The root is visited apart from the rows below it.
theorem through_refresh :
    (refresh a {} root).2.through a (refresh a {} root).1.1 (refresh a {} root).1.2 =
      run a (bound a + 1) { stack := [⟨root, [], 0⟩] } :=
  rfl

theorem through_ok (h : a.Sound) (held : a.Holds root) :
    ∃ w, (refresh a {} root).2.through a (refresh a {} root).1.1 (refresh a {} root).1.2 = .ok w ∧
      Passed (a.visits h root []) {} w := by
  have hp := pending_root h root
  have hl : (a.visits h root []).length ≤ bound a + 1 := by
    have := Archive.length_visits_le h held [] (Nat.le_of_lt (Nat.lt_succ_of_lt (h.height_lt held)))
    exact Nat.le_succ_of_le this
  obtain ⟨w, hw, hv⟩ := run_ok (w := { stack := [⟨root, [], 0⟩] }) h
    ⟨.empty, by simpa using held⟩ (hp ▸ hl)
  refine ⟨w, through_refresh.trans hw, ?_⟩
  rw [← hp]
  exact ⟨hv.visited, hv.results, hv.faults⟩

end Walk

variable {a : Archive} {root : Row}

theorem flatten_eq (h : a.Sound) (held : a.Holds root) :
    flatten a root = .ok ((a.visits h root []).filterMap (·.record?)) := by
  have ⟨w, hw, hp⟩ := Walk.through_ok h held
  rw [flatten]
  dsimp only
  rw [hw, Except.map, hp.results]
  rfl

-- A dataset is exported with the results of the visits. Header and operation come from the sender
-- and the operation that are given, and from the root.
theorem exportReport_eq (h : a.Sound) (held : a.Holds root) {sender : Sender} {op : Operation}
    (hv : sender.validate = .ok ()) (ho : op.opType.carriesDataset) (stamp : Stamp) :
    ∃ e, exportReport a sender stamp root op = .ok e ∧
      e.message = {
        header    := Message.overrideHeader (a.resolved root).1
          (Walk.failedColumns (a.resolved root).2) (sender.header stamp)
        operation := Message.overrideOperation (a.resolved root).1
          (Walk.failedColumns (a.resolved root).2) op.fields
        dataset   := some ((a.visits h root []).filterMap (·.record?)) } ∧
      e.summary.visited = (a.visits h root []).length ∧
      e.summary.records = ((a.visits h root []).filterMap (·.record?)).length ∧
      e.summary.faults = (a.visits h root []).flatMap (·.faults) := by
  have ⟨w, hw, hp⟩ := Walk.through_ok h held
  have hr := Walk.refresh_eq (a := a) (w := {}) .empty root
  have hres : w.results = (a.visits h root []).filterMap (·.record?) := hp.results
  rw [exportReport, hv]
  dsimp only
  rw [if_pos ho, hw]
  refine ⟨_, rfl, ?_, ?_, ?_, hp.faults⟩
  case refine_1 =>
    dsimp only
    rw [hr, hres]
  case refine_2 => exact hp.visited.trans (Nat.zero_add _)
  case refine_3 =>
    dsimp only
    rw [hres]

-- Both ways out of an archive give the records of the visits, in their order. A row is visited with
-- its formulas computed, and after it the rows below it, with what it hands down to them; those of one
-- table come by ascending identity.
theorem export_of_visits (h : a.Sound) (held : a.Holds root) :
    (∀ row inherited, a.Holds row → a.visits h row inherited =
      let v := Visit.of a row inherited
      v :: (a.below v.row).flatMap fun c => a.visits h c v.fields) ∧
    (∀ row child, (a.referring row child).Pairwise fun r s => r.id.val < s.id.val) ∧
    flatten a root = .ok ((a.visits h root []).filterMap (·.record?)) ∧
    ∀ (sender : Sender) (stamp : Stamp) (op : Operation), sender.validate = .ok () →
      op.opType.carriesDataset →
      ∃ e, exportReport a sender stamp root op = .ok e ∧
        e.message.dataset = some ((a.visits h root []).filterMap (·.record?)) ∧
        e.summary.visited = (a.visits h root []).length ∧
        e.summary.records = ((a.visits h root []).filterMap (·.record?)).length ∧
        e.summary.faults = (a.visits h root []).flatMap (·.faults) := by
  refine ⟨fun row inherited hr => Archive.visits_eq h hr inherited, Archive.referring_ascending,
    flatten_eq h held, fun sender stamp op hv ho => ?_⟩
  have ⟨e, he, hm, hs⟩ := exportReport_eq h held hv ho stamp
  exact ⟨e, he, by rw [hm], hs⟩

-- Plates with their wells, where the grade of a well comes from a column that no table has.
namespace Plates

def definition : CatalogDefinition where
  tables := [
    { name := "plate", traversable := true, columns := [{ id := "grade", output := .record }] },
    { name := "well", traversable := true, generatesRecord := true,
      columns := [
        { id := "grade", output := .record, codeFormula := some "%ghost.code" },
        { id := "dye", output := .record }] }]
  relations := [{ parent := "plate", child := "well" }]

def records : List (String × List Record) := [
  ("plate", [{ id := ⟨1⟩, cells := [("grade", .plain "A")] }]),
  ("well", [
    { id := ⟨1⟩, cells := [("plateId", .plain "1"), ("dye", .plain "red")] },
    { id := ⟨2⟩, cells := [("plateId", .plain "1")] }])]

def catalog : Catalog :=
  (Catalog.build definition).toOption.getD ⟨[]⟩

def archive : Archive where
  catalog := catalog
  store   := (Store.ofTables catalog records).toOption.getD {}

def plate : Row :=
  (archive.store.rows "plate").head (by decide)

theorem sound : archive.Sound :=
  ⟨⟨definition, by decide⟩, by decide⟩

def top : Visit :=
  .of archive plate []

-- There is nothing below the wells.
theorem visits_plate : archive.visits sound plate [] =
    top :: (archive.below top.row).map fun c => .of archive c top.fields := by
  have leaf : ∀ c ∈ archive.below top.row,
      archive.visits sound c top.fields = [.of archive c top.fields] := by
    intro c hc
    have hb : ∀ c ∈ archive.below top.row,
        archive.below (Visit.of archive c top.fields).row = [] := by decide +kernel
    rw [Archive.visits_eq sound (sound.holds_below hc)]
    simp only [hb c hc, List.flatMap_nil]
  rw [Archive.visits_eq sound (by decide : archive.Holds plate), List.map_eq_flatMap]
  exact congrArg (top :: ·) (List.flatMap_congr leaf)

end Plates

-- The wells have the grade of the plate, as their own fails, and a dye of their own. The second well
-- has an empty one.
open Plates in
theorem export_of_visits_plates :
    archive.Holds plate ∧
    (archive.visits sound plate []).map (·.own) =
      [[("grade", "A")], [("dye", "red")], [("dye", "")]] ∧
    flatten archive plate =
      .ok [[("grade", "A"), ("dye", "red")], [("grade", "A"), ("dye", "")]] ∧
    ∃ e, exportReport archive (.named "LAB" "ORG") ⟨⟨"m"⟩, 0⟩ plate { opType := .insert } = .ok e ∧
      e.message.dataset = some [[("grade", "A"), ("dye", "red")], [("grade", "A"), ("dye", "")]] ∧
      e.summary.visited = 3 ∧ e.summary.records = 2 ∧
      e.summary.faults.map (fun f => (f.row, f.cell.column)) = [(⟨1⟩, "grade"), (⟨2⟩, "grade")] := by
  have ⟨_, _, hf, he⟩ := export_of_visits sound (by decide : archive.Holds plate)
  have ⟨e, he, hd, hv, hr, hw⟩ := he (.named "LAB" "ORG") ⟨⟨"m"⟩, 0⟩ { opType := .insert }
    (by decide) (by decide)
  rw [visits_plate] at hf hd hv hr hw
  rw [visits_plate]
  refine ⟨by decide, by decide +kernel, hf.trans (by decide +kernel), e, he, ?_, ?_, ?_, ?_⟩
  case refine_1 => exact hd.trans (by decide +kernel)
  case refine_2 => exact hv.trans (by decide +kernel)
  case refine_3 => exact hr.trans (by decide +kernel)
  case refine_4 =>
    rw [hw]
    decide +kernel

end ReportExchange
