import ReportExchange.Proofs.Formula.Cells
import ReportExchange.Proofs.Formula.Steady

namespace ReportExchange

namespace Formula

variable {α β : Type} {a : Archive}

namespace Reading

-- What a reading comes to when it starts without any cached parent.
def value (m : Reading α) : Except FormulaError α :=
  fresh m.run

theorem value_pure (v : α) : (pure v : Reading α).value = .ok v :=
  rfl

theorem value_throw (e : FormulaError) : (throw e : Reading α).value = .error e :=
  rfl

theorem value_bind {m : Reading α} {f : α → Reading β} (hm : Steady a m.run)
    (hf : ∀ v, Steady a (f v).run) : (m >>= f).value = m.value >>= fun v => (f v).value := by
  simp only [value, ExceptT.run_bind]
  refine (hm.fresh_bind fun v => ?_).trans ?_
  case refine_1 =>
    cases v
    case error => exact .pure _
    case ok v  => exact hf v
  case refine_2 => cases fresh m.run <;> rfl

theorem value_parent (table : String) (id : RowId) :
    (Reading.parent a table id).value = (a.parent table id).mapError .parent :=
  (performs_parent table id).fresh_eq a.store

end Reading

open Reading

theorem value_follow_cons (row : Row) (r : Relation) (rs : List Relation) :
    (follow a row (r :: rs)).value = match row.parentId r.parent with
      | none    => .error (.missingParent row.table.name r.parent)
      | some id =>
        (a.parent r.parent id).mapError .parent >>= fun up => (follow a up rs).value := by
  rw [follow]
  cases row.parentId r.parent
  case none    => rfl
  case some id =>
    dsimp only
    rw [value_bind (steady_parent r.parent id) fun up => steady_follow up rs, value_parent]

theorem value_ancestor (row : Row) (column : String) :
    (ancestor a row column).value = match a.catalog.pathToAncestor row.table.name column with
      | some path => (follow a row path).value
      | none      => .error (.unknownColumn column row.table.name) := by
  rw [ancestor]
  cases a.catalog.pathToAncestor row.table.name column <;> rfl

theorem value_lookUp_succ (n : Nat) (row : Row) (f : Formula) :
    (lookUp a (n + 1) row f).value = match f.resolve row with
      | some (.resolved value) => .ok value
      | some (.deferred text)  =>
        match compile text with
        | .ok next     => (lookUp a n row next).value
        | .error cause => .error (.malformed cause)
      | none => (ancestor a row f.column).value >>= fun up => (lookUp a n up f).value := by
  rw [lookUp]
  cases f.resolve row
  case none => exact value_bind (steady_ancestor row f.column) fun up => steady_lookUp n up f
  case some v =>
    cases v
    case resolved      => rfl
    case deferred text =>
      dsimp only
      cases compile text <;> rfl

end Formula

open Formula in
-- What a formula finds above a row whose table lacks its column.
def Archive.above (a : Archive) (row : Row) (f : Formula) : Except FormulaError String :=
  (ancestor a row f.column).value >>= fun up => (lookUp a chainLimit up f).value

namespace Formula

variable {a : Archive} {ts : List Target} {s : Sweep}

theorem value_evaluate (s : Sweep) (f : Formula) :
    (evaluate a s f).value =
      if s.row.table.declares f.column then
        if f.reference ∈ s.failed then .error (.unresolved f.column f.half)
        else if f.reference ∈ s.pending then .ok none
        else .ok (some (s.row.text f.reference))
      else (a.above s.row f).map some := by
  have hr : f.reference = ⟨f.column, f.half⟩ := rfl
  rw [evaluate, ← hr]
  by_cases hd : s.row.table.declares f.column
  case pos =>
    rw [if_pos hd, if_pos hd]
    by_cases hf : f.reference ∈ s.failed
    case pos => simp [hf, Reading.value_throw]
    case neg =>
      by_cases hp : f.reference ∈ s.pending
      case pos => simp [hf, hp, Reading.value_pure]
      case neg =>
        simp only [hf, hp, if_false]
        rfl
  case neg =>
    have hl (up : Row) : (lookUp a chainLimit up f >>= fun value => pure (some value)).value =
        (lookUp a chainLimit up f).value.map some := by
      rw [Reading.value_bind (steady_lookUp chainLimit up f) fun v => Reading.steady_pure _]
      cases (lookUp a chainLimit up f).value <;> rfl
    rw [if_neg hd, if_neg hd, Reading.value_bind (steady_ancestor s.row f.column) fun up =>
      Reading.steady_bind (steady_lookUp chainLimit up f) fun v => Reading.steady_pure _]
    simp only [hl, Archive.above]
    cases (ancestor a s.row f.column).value <;> rfl

namespace Sweep

-- The sweep after one formula has had its turn, and after each of a list has.
def tried (a : Archive) (s : Sweep) (t : Target) : Sweep :=
  if t.cell ∈ s.pending then s.absorb t.cell (evaluate a s t.formula).value else s

def round (a : Archive) (ts : List Target) (s : Sweep) : Sweep :=
  ts.foldl (tried a) s

-- No formula that waits has anything to offer.
def Stuck (a : Archive) (ts : List Target) (s : Sweep) : Prop :=
  ∀ t ∈ ts, t.cell ∈ s.pending → (evaluate a s t.formula).value = .ok none

theorem length_absorb_lt {cell : CellHalf} {v : Except FormulaError (Option String)}
    (h : cell ∈ s.pending) (hv : v ≠ .ok none) :
    (s.absorb cell v).pending.length < s.pending.length := by
  have hl := List.length_erase_of_mem h
  have hp := List.length_pos_of_mem h
  match v with
  | .ok none         => exact absurd rfl hv
  | .ok (some value) => simp only [absorb, settle]; omega
  | .error cause     => simp only [absorb, fail]; omega

theorem tried_cases (s : Sweep) (t : Target) :
    s.tried a t = s ∨ (s.tried a t).pending.length < s.pending.length := by
  rw [tried]
  split
  case isFalse   => exact .inl rfl
  case isTrue hp =>
    by_cases hv : (evaluate a s t.formula).value = .ok none
    case pos => exact .inl (by simp [hv, absorb])
    case neg => exact .inr (length_absorb_lt hp hv)

theorem length_round_le (ts : List Target) (s : Sweep) :
    (s.round a ts).pending.length ≤ s.pending.length := by
  induction ts generalizing s
  case nil => exact Nat.le_refl _
  case cons t ts hi =>
    have ht := hi (s.tried a t)
    cases tried_cases (a := a) s t
    case inl e =>
      rw [e] at ht
      simpa [round, e] using ht
    case inr l => exact Nat.le_trans ht (Nat.le_of_lt l)

-- A round that leaves as many cells waiting as it has found has done nothing at all.
theorem stuck_of_length_round (h : (s.round a ts).pending.length = s.pending.length) :
    s.Stuck a ts ∧ s.round a ts = s := by
  induction ts
  case nil => exact ⟨nofun, rfl⟩
  case cons t ts hi =>
    have hr : s.round a (t :: ts) = (s.tried a t).round a ts := rfl
    have hl := length_round_le (a := a) ts (s.tried a t)
    cases tried_cases (a := a) s t
    case inr l =>
      rw [hr] at h
      omega
    case inl e =>
      rw [hr, e] at h ⊢
      have ⟨hs, hu⟩ := hi h
      refine ⟨List.forall_mem_cons.mpr ⟨fun hp => ?_, hs⟩, hu⟩
      by_contra hv
      have lt := length_absorb_lt hp hv
      rw [tried, if_pos hp] at e
      rw [e] at lt
      exact Nat.lt_irrefl _ lt

theorem round_induction {P : Sweep → Prop}
    (step : ∀ t ∈ ts, ∀ s, t.cell ∈ s.pending → P s →
      P (s.absorb t.cell (evaluate a s t.formula).value)) (h : P s) : P (s.round a ts) := by
  induction ts generalizing s
  case nil => exact h
  case cons t ts hi =>
    refine hi (fun t ht => step t (List.mem_cons_of_mem _ ht)) ?_
    rw [tried]
    split
    case isFalse   => exact h
    case isTrue hp => exact step t List.mem_cons_self s hp h

end Sweep

open Sweep

theorem fresh_pass (s : Sweep) : fresh (pass a ts s) = s.round a ts := by
  induction ts generalizing s
  case nil => rfl
  case cons t ts hi =>
    have ht : fresh (attempt a s t) = s.tried a t := attempt_eq s t
    have hp : fresh (pass a (t :: ts) s) = fresh (pass a ts (fresh (attempt a s t))) :=
      (steady_attempt s t).fresh_bind fun s' => steady_pass ts s'
    rw [hp, hi, ht]
    rfl

theorem fresh_passes_succ (n : Nat) (s : Sweep) :
    fresh (passes a ts (n + 1) s) =
      if s.pending.isEmpty then s
      else if (s.round a ts).pending.length = s.pending.length then s.round a ts
      else fresh (passes a ts n (s.round a ts)) := by
  rw [passes]
  split
  case isTrue  => rfl
  case isFalse =>
    refine ((steady_pass ts s).fresh_bind fun s' => ?_).trans ?_
    case refine_1 =>
      split
      case isTrue  => exact .pure s'
      case isFalse => exact steady_passes ts n s'
    case refine_2 =>
      rw [fresh_pass]
      split <;> rfl

theorem fresh_passes_induction {P : Sweep → Prop}
    (step : ∀ t ∈ ts, ∀ s, t.cell ∈ s.pending → P s →
      P (s.absorb t.cell (evaluate a s t.formula).value)) {n : Nat} (h : P s) :
    P (fresh (passes a ts n s)) := by
  induction n generalizing s
  case zero => exact h
  case succ n hi =>
    have hr := round_induction step h
    rw [fresh_passes_succ]
    split
    case isTrue => exact h
    case isFalse =>
      split
      case isTrue  => exact hr
      case isFalse => exact hi hr

-- More passes than there are cells to wait for are enough: each one but the last takes a cell off.
theorem stuck_passes {n : Nat} (h : s.pending.length < n) :
    (fresh (passes a ts n s)).Stuck a ts := by
  induction n generalizing s
  case zero => exact absurd h (Nat.not_lt_zero _)
  case succ n hi =>
    have hl := length_round_le (a := a) ts s
    rw [fresh_passes_succ]
    split
    case isTrue he =>
      intro t _ hp
      simp_all
    case isFalse =>
      split
      case isTrue e =>
        have ⟨hs, hu⟩ := stuck_of_length_round e
        exact hu.symm ▸ hs
      case isFalse e => exact hi (by omega)

theorem passes_eq_of_length_lt {n m : Nat} (hn : s.pending.length < n)
    (hm : s.pending.length < m) : fresh (passes a ts n s) = fresh (passes a ts m s) := by
  induction n generalizing s m
  case zero => exact absurd hn (Nat.not_lt_zero _)
  case succ n hi =>
    cases m
    case zero => exact absurd hm (Nat.not_lt_zero _)
    case succ m =>
      have hl := length_round_le (a := a) ts s
      simp only [fresh_passes_succ]
      split
      case isTrue  => rfl
      case isFalse =>
        split
        case isTrue    => rfl
        case isFalse e => exact hi (by omega) (by omega)

end Formula

end ReportExchange
