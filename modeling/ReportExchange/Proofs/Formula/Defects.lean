import ReportExchange.Proofs.Catalog.Search
import ReportExchange.Proofs.Formula.Resolution

namespace ReportExchange

open Formula

-- The errors that remain once a catalog has been built: those of the rows that are stored, and those
-- of a reference to a column that neither a table nor any table above it declares.
def FormulaError.Remains (c : Catalog) : FormulaError → Prop
  | .malformed _                => False
  | .parent (.catalog _)        => False
  | .parent (.notFound _ _)     => True
  | .unknownColumn column table =>
    ∃ t, c.table? table = some t ∧ ∀ path up, c.Climbs t path up → ¬ up.declares column
  | .unresolved _ _ | .missingParent _ _ | .tooDeep _ => True

namespace ParentCache

-- Every slot holds a row of the table that it is for. What the store holds now is left open.
def Filed (c : Catalog) (cache : ParentCache) : Prop :=
  ∀ table slot, cache.slot? table = some slot → c.table? table = some slot.row.table

variable {a : Archive} {cache : ParentCache} {table : String} {id : RowId}

namespace Filed

theorem empty (c : Catalog) : ({} : ParentCache).Filed c := nofun

theorem of_faithful (h : a.Sound) (hc : cache.Faithful a) : cache.Filed a.catalog := by
  intro table slot hs
  have hp := hc table slot hs
  obtain ⟨t, ht⟩ := Option.isSome_iff_exists.mp (Archive.parent_eq_ok_iff.mp hp).1
  rw [(h.table_of_parent ht hp).2, ht]

theorem evict {c : Catalog} (h : cache.Filed c) (table : String) : (cache.evict table).Filed c := by
  intro t slot hs
  rw [slot?_evict] at hs
  split at hs
  case isTrue  => cases hs
  case isFalse => exact h t slot hs

theorem remember {c : Catalog} {row : Row} (h : cache.Filed c) (id : RowId)
    (hr : c.table? table = some row.table) : (cache.remember table id row).Filed c := by
  intro t slot hs
  rw [slot?_remember] at hs
  split at hs
  case isTrue e =>
    cases hs
    exact e ▸ hr
  case isFalse => exact h t slot hs

end Filed

-- What is known of the answer to a question for a row of a table that the catalog has.
structure Answers (c : Catalog) (t : Table) (r : Except ParentError Row × ParentCache) : Prop where
  filed : r.2.Filed c
  table : ∀ row, r.1 = .ok row → row.table = t
  known : ∀ cause, r.1 ≠ .error (.catalog cause)

theorem answers_fetch (h : a.Sound) (hc : cache.Filed a.catalog) {t : Table}
    (ht : a.catalog.table? table = some t) (id : RowId) :
    Answers a.catalog t (cache.fetch a table id) := by
  have hn := Catalog.name_of_table? ht
  rw [fetch, Catalog.table, ht]
  cases hf : a.store.find? t.name id
  case none =>
    simp only [hf]
    exact ⟨hc.evict table, by simp, by simp⟩
  case some row =>
    have hp : a.parent table id = .ok row := by
      simp only [Archive.parent, Catalog.table, ht, hf]
    have hrow := (h.table_of_parent ht hp).2
    simp only [hf]
    have he : ({ cache.evict table with fetches := cache.fetches + 1 } : ParentCache).Filed
        a.catalog := hc.evict table
    exact ⟨he.remember id (hrow ▸ ht), fun _ e => Except.ok.inj e ▸ hrow, by simp⟩

theorem answers_parent (h : a.Sound) (hc : cache.Filed a.catalog) {t : Table}
    (ht : a.catalog.table? table = some t) (id : RowId) :
    Answers a.catalog t (cache.parent a table id) := by
  obtain ⟨slot, hs, _, e⟩ | e := cache.parent_cases a table id
  · rw [e]
    refine ⟨hc, fun row he => ?_, by simp⟩
    cases he
    exact Option.some.inj ((hc table slot hs).symm.trans ht)
  · rw [e]
    exact answers_fetch h hc ht id

end ParentCache

namespace Formula

variable {α β : Type} {a : Archive} {row up : Row} {t : Table} {f : Formula}

-- A reading comes to what is promised of it, or to an error that remains.
def Reading.Ensures (a : Archive) (m : Reading α) (P : α → Prop) : Prop :=
  ∀ cache : ParentCache, cache.Filed a.catalog →
    (m.run.run cache).2.Filed a.catalog ∧
    match (m.run.run cache).1 with
    | .ok v    => P v
    | .error e => e.Remains a.catalog

namespace Reading

variable {m : Reading α} {P Q : α → Prop}

theorem ensures_pure {v : α} (h : P v) : (pure v : Reading α).Ensures a P :=
  fun _ hc => ⟨hc, h⟩

theorem ensures_throw {e : FormulaError} (h : e.Remains a.catalog) :
    (throw e : Reading α).Ensures a P :=
  fun _ hc => ⟨hc, h⟩

theorem ensures_mono (hm : m.Ensures a P) (h : ∀ v, P v → Q v) : m.Ensures a Q := by
  intro cache hc
  obtain ⟨hf, hv⟩ := hm cache hc
  refine ⟨hf, ?_⟩
  match e : (m.run.run cache).1 with
  | .error cause =>
    rw [e] at hv
    exact hv
  | .ok v =>
    rw [e] at hv
    exact h v hv

theorem ensures_bind {g : α → Reading β} {R : β → Prop} (hm : m.Ensures a P)
    (hg : ∀ v, P v → (g v).Ensures a R) : (m >>= g).Ensures a R := by
  intro cache hc
  obtain ⟨hf, hv⟩ := hm cache hc
  rw [ExceptT.run_bind, run_bind]
  match h : (m.run.run cache).1 with
  | .error e =>
    rw [h] at hv
    exact ⟨hf, hv⟩
  | .ok v =>
    rw [h] at hv
    exact hg v hv _ hf

theorem ensures_parent (h : a.Sound) {table : String} (ht : a.catalog.table? table = some t)
    (id : RowId) : (Reading.parent a table id).Ensures a fun up => up.table = t := by
  intro cache hc
  have hp := ParentCache.answers_parent h hc ht id
  have e : (Reading.parent a table id).run.run cache =
      ((cache.parent a table id).1.mapError .parent, (cache.parent a table id).2) := by
    simp only [Reading.parent, ExceptT.run, StateT.run]
    split
    case h_1 e => rw [e]; rfl
    case h_2 e => rw [e]; rfl
  rw [e]
  refine ⟨hp.filed, ?_⟩
  cases hv : (cache.parent a table id).1
  case ok row      => exact hp.table row hv
  case error cause =>
    cases cause
    case notFound      => trivial
    case catalog cause => exact hp.known cause hv

end Reading

open Reading

theorem ensures_follow (h : a.Sound) {path : List Relation}
    (hc : a.catalog.Climbs row.table path t) :
    (follow a row path).Ensures a fun up => up.table = t := by
  induction path generalizing row
  case nil =>
    cases hc
    exact ensures_pure rfl
  case cons r rest hi =>
    cases hc with | cons _ ht hc => ?_
    rw [follow]
    cases row.parentId r.parent
    case none    => exact ensures_throw trivial
    case some id => exact ensures_bind (ensures_parent h ht id) fun mid hm => hi (hm ▸ hc)

-- The search above a row ends at a row of the catalog, or nothing above declares the column.
theorem ensures_ancestor (h : a.Sound) (held : a.Holds row) {column : String}
    (hd : ¬ row.table.declares column) : (ancestor a row column).Ensures a a.Holds := by
  rw [ancestor]
  cases hp : a.catalog.pathToAncestor row.table.name column
  case none =>
    refine ensures_throw ⟨row.table, held, fun _ _ hc => ?_⟩
    exact Catalog.not_declares_of_pathToAncestor_none held hd hp hc
  case some path =>
    obtain ⟨t, hc, _⟩ := Catalog.climbs_of_pathToAncestor held hp
    refine ensures_mono (ensures_follow h hc) fun up hup => ?_
    rw [Archive.Holds, hup]
    exact hc.found held

-- A formula that another one is put off to has been checked with the catalog.
theorem compiles_of_deferred (h : a.Sound) (held : a.Holds row) {text : String}
    (hf : f.resolve row = some (.deferred text)) : ∃ g, compile text = .ok g := by
  obtain ⟨d, hb⟩ := h.built
  rw [resolve] at hf
  split at hf
  case h_1 => cases hf
  case h_2 column hc =>
    dsimp only at hf
    split at hf
    case isTrue => cases hf
    case isFalse =>
      split at hf
      case h_2 => cases hf
      case h_1 ht =>
        cases hf
        exact Catalog.compiles_of_build hb held.mem (List.mem_of_find?_eq_some hc) ht

theorem ensures_lookUp (h : a.Sound) (held : a.Holds row) (budget : Nat) (f : Formula) :
    (lookUp a budget row f).Ensures a fun _ => True := by
  induction budget generalizing row f
  case zero => exact ensures_throw trivial
  case succ budget hi =>
    rw [lookUp]
    cases hr : f.resolve row
    case none =>
      have hd := resolve_eq_none_iff.mp hr
      exact ensures_bind (ensures_ancestor h held hd) fun up hup => hi hup f
    case some answer =>
      cases answer
      case resolved value => exact ensures_pure trivial
      case deferred text  =>
        obtain ⟨g, hg⟩ := compiles_of_deferred h held hr
        dsimp only
        rw [hg]
        exact hi held g

theorem ensures_evaluate (h : a.Sound) {s : Sweep} (held : a.Holds s.row) (f : Formula) :
    (evaluate a s f).Ensures a fun _ => True := by
  rw [evaluate]
  split
  case isTrue =>
    split
    case isTrue  => exact ensures_throw trivial
    case isFalse =>
      split
      case isTrue  => exact ensures_pure trivial
      case isFalse => exact ensures_pure trivial
  case isFalse hd =>
    refine ensures_bind (ensures_ancestor h held hd) fun up hup => ?_
    exact ensures_bind (ensures_lookUp h hup chainLimit f) fun value _ => ensures_pure trivial

-- A refresh writes into a column that the row's table declares.
theorem ensures_refreshHalf (h : a.Sound) (held : a.Holds row) {c : Column}
    (hc : c ∈ row.table.columns) (half : Half) :
    (refreshHalf a row c half).Ensures a fun r => r.table = row.table := by
  obtain ⟨d, hb⟩ := h.built
  rw [refreshHalf]
  cases hf : c.formulaFor half
  case none      => exact ensures_pure rfl
  case some text =>
    obtain ⟨f, hf⟩ := Catalog.compiles_of_build hb held.mem hc hf
    dsimp only
    rw [hf]
    dsimp only
    split
    case isTrue  => exact ensures_throw trivial
    case isFalse =>
      refine ensures_bind (ensures_lookUp h held _ f) fun value _ => ?_
      have hd : row.table.declares c.id := List.any_eq_true.mpr ⟨c, hc, decide_eq_true rfl⟩
      obtain ⟨r, hr⟩ : ∃ r, row.setHalf c.id half value = .ok r := Row.exists_put hd _
      rw [hr]
      exact ensures_pure (Row.frame_of_put hr).1

theorem refreshColumn_remains (h : a.Sound) (held : a.Holds row) {column : String}
    (hd : row.table.declares column) {cache : ParentCache} (hc : cache.Filed a.catalog)
    {cause : FormulaError} (he : ((refreshColumn a row column).run cache).1.2 = .error cause) :
    cause.Remains a.catalog := by
  rw [refreshColumn] at he
  cases hcol : row.table.column? column
  case none   =>
    have hn := List.find?_eq_none.mp hcol
    obtain ⟨c, hm, hid⟩ := List.any_eq_true.mp hd
    exact absurd hid (hn c hm)
  case some c =>
    have hm := List.mem_of_find?_eq_some hcol
    obtain ⟨hf, hv⟩ := ensures_refreshHalf h held hm .code cache hc
    rw [hcol] at he
    dsimp only at he
    rw [run_bind] at he
    cases hr : ((refreshHalf a row c .code).run.run cache).1
    case error e =>
      rw [hr] at he hv
      cases he
      exact hv
    case ok mid =>
      rw [hr] at he hv
      have hmid : a.Holds mid := held.of_table_eq hv
      obtain ⟨_, hv'⟩ := ensures_refreshHalf h hmid (hv ▸ hm : c ∈ mid.table.columns) .label _ hf
      dsimp only at he
      rw [run_bind] at he
      split at he
      case h_1 e hr' =>
        cases he
        rw [hr'] at hv'
        exact hv'
      case h_2 => cases he

-- What is known of a sweep over the formulas of a row at any time.
structure Sweep.Clear (a : Archive) (row : Row) (s : Sweep) : Prop where
  table  : s.row.table = row.table
  faults : ∀ f ∈ s.faults, f.cause.Remains a.catalog

theorem Sweep.Clear.absorb {s : Sweep} (hs : s.Clear a row) (cell : CellHalf)
    {v : Except FormulaError (Option String)} (hv : ∀ e, v = .error e → e.Remains a.catalog) :
    (s.absorb cell v).Clear a row := by
  match v with
  | .ok none         => exact hs
  | .ok (some value) =>
    exact ⟨(s.row.spares_setHalf cell.column cell.half value).table.trans hs.table, hs.faults⟩
  | .error e =>
    refine ⟨hs.table, fun f hf => ?_⟩
    cases List.mem_append.mp hf
    case inl hf => exact hs.faults f hf
    case inr hf => exact List.mem_singleton.mp hf ▸ hv e rfl

section Sweeps

variable (h : a.Sound) (held : a.Holds row) {s : Sweep} {cache : ParentCache} {ts : List Target}

include h held

theorem clear_attempt (hs : s.Clear a row) (hc : cache.Filed a.catalog) (x : Target) :
    ((attempt a s x).run cache).1.Clear a row ∧ ((attempt a s x).run cache).2.Filed a.catalog := by
  obtain ⟨hf, hv⟩ := ensures_evaluate h (held.of_table_eq hs.table) x.formula cache hc
  constructor
  case left =>
    rw [attempt_eq]
    split
    case isFalse => exact hs
    case isTrue  =>
      refine hs.absorb x.cell fun e he => ?_
      rw [he] at hv
      exact hv
  case right =>
    rw [attempt]
    split
    case isFalse => exact hc
    case isTrue  =>
      rw [run_bind]
      split
      all_goals exact hf

theorem clear_pass (hs : s.Clear a row) (hc : cache.Filed a.catalog) :
    ((pass a ts s).run cache).1.Clear a row ∧ ((pass a ts s).run cache).2.Filed a.catalog := by
  rw [pass]
  induction ts generalizing s cache
  case nil => exact ⟨hs, hc⟩
  case cons x ts hi =>
    rw [List.foldlM_cons, run_bind]
    obtain ⟨hs', hc'⟩ := clear_attempt h held hs hc x
    exact hi hs' hc'

theorem clear_passes {n : Nat} (hs : s.Clear a row) (hc : cache.Filed a.catalog) :
    ((passes a ts n s).run cache).1.Clear a row := by
  induction n generalizing s cache
  case zero => exact hs
  case succ n hi =>
    rw [passes]
    split
    case isTrue  => exact hs
    case isFalse =>
      have hp : ((pass a ts s).run cache).1.Clear a row ∧ _ := clear_pass h held hs hc
      rw [run_bind]
      split
      case isTrue  => exact hp.1
      case isFalse => exact hi hp.1 hp.2

theorem resolveRow_remains (hc : cache.Filed a.catalog) :
    ∀ f ∈ ((resolveRow a row).run cache).1.2, f.cause.Remains a.catalog := by
  obtain ⟨d, hb⟩ := h.built
  have hstart : (Sweep.start row).Clear a row := by
    refine ⟨row.spares_uncomputed.table, fun f hf => ?_⟩
    rw [Sweep.start, malformedFaults_of_build hb held] at hf
    cases hf
  have hs : ((passes a (targets row.table) ((targets row.table).length + 1)
      (.start row)).run cache).1.Clear a row := clear_passes h held hstart hc
  rw [resolveRow, run_bind]
  intro f hf
  cases List.mem_append.mp hf
  case inl hf => exact hs.faults f hf
  case inr hf =>
    obtain ⟨x, _, rfl⟩ := List.mem_map.mp hf
    trivial

end Sweeps

-- The sweeps that the resolution of a row may come through, whatever its formulas come to.
inductive Sweep.Passing (row : Row) : Sweep → Prop
  | start : Passing row (.start row)
  | turn {s : Sweep} {x : Target} (v : Except FormulaError (Option String)) :
    Passing row s → x ∈ targets row.table → x.cell ∈ s.pending → Passing row (s.absorb x.cell v)

theorem Sweep.Passing.table_eq {s : Sweep} (h : Passing row s) : s.row.table = row.table := by
  induction h
  case start => exact row.spares_uncomputed.table
  case turn s x v _ _ _ hi =>
    match v with
    | .ok none         => exact hi
    | .ok (some value) => exact (s.row.spares_setHalf x.cell.column x.cell.half value).table.trans hi
    | .error e         => exact hi

-- No value of a formula is lost for want of a column.
theorem Sweep.Passing.exists_setHalf {s : Sweep} (h : Passing row s) {x : Target}
    (hx : x ∈ targets row.table) (value : String) :
    ∃ r, s.row.setHalf x.cell.column x.cell.half value = .ok r := by
  obtain ⟨c, hc, hid, _⟩ := mem_targets_iff.mp hx
  refine Row.exists_put ?_ _
  rw [h.table_eq]
  exact List.any_eq_true.mpr ⟨c, hc, decide_eq_true hid⟩

theorem passing_resolveRow (row : Row) (cache : ParentCache) :
    ∃ s, Sweep.Passing row s ∧ ((resolveRow a row).run cache).1.1 = s.row := by
  have hs := passes_induction (a := a) (c := cache) (n := (targets row.table).length + 1)
    (P := Sweep.Passing row) (fun _ hx _ hp hs v => .turn v hs hx hp) .start
  exact ⟨_, hs, rfl⟩

end Formula

end ReportExchange
