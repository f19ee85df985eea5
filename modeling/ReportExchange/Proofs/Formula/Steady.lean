import ReportExchange.Formula.Evaluation
import ReportExchange.Proofs.Ancestor.Inquiry

namespace ReportExchange.Formula

variable {α β : Type} {c : Catalog}

namespace Reading

variable {m : Store → Reading α} {f : α → Store → Reading β}

theorem inquires_throw (e : FormulaError) : Inquires c fun _ => (throw e : Reading α).run :=
  .pure _

theorem inquires_pure (v : α) : Inquires c fun _ => (pure v : Reading α).run :=
  .pure _

theorem inquires_bind (hm : Inquires c fun s => (m s).run)
    (hf : ∀ v, Inquires c fun s => (f v s).run) :
    Inquires c fun s => (m s >>= fun v => f v s).run := by
  simp only [ExceptT.run_bind]
  refine hm.bind fun v => ?_
  cases v
  case error => exact .pure _
  case ok v  => exact hf v

theorem performs_parent (table : String) (id : RowId) :
    (Inquiry.ask table id fun r => .answer (r.mapError .parent)).Performs c
      fun s => (Reading.parent ⟨c, s⟩ table id).run := by
  intro s cache
  simp only [Reading.parent, ExceptT.run, StateT.run, Inquiry.run]
  split
  case h_1 row cache' e   => rw [e]; rfl
  case h_2 cause cache' e => rw [e]; rfl

theorem inquires_parent (table : String) (id : RowId) :
    Inquires c fun s => (Reading.parent ⟨c, s⟩ table id).run :=
  ⟨_, performs_parent table id⟩

end Reading

open Reading

section Inquires

theorem inquires_follow (row : Row) (path : List Relation) :
    Inquires c fun s => (follow ⟨c, s⟩ row path).run := by
  induction path generalizing row
  case nil => exact inquires_pure row
  case cons r rs hi =>
    simp only [follow]
    cases row.parentId r.parent
    case none    => exact inquires_throw _
    case some id => exact inquires_bind (inquires_parent r.parent id) hi

theorem inquires_ancestor (row : Row) (column : String) :
    Inquires c fun s => (ancestor ⟨c, s⟩ row column).run := by
  simp only [ancestor]
  cases c.pathToAncestor row.table.name column
  case none      => exact inquires_throw _
  case some path => exact inquires_follow row path

theorem inquires_lookUp (budget : Nat) (row : Row) (f : Formula) :
    Inquires c fun s => (lookUp ⟨c, s⟩ budget row f).run := by
  induction budget generalizing row f
  case zero => exact inquires_throw _
  case succ budget hi =>
    simp only [lookUp]
    cases f.resolve row
    case none => exact inquires_bind (inquires_ancestor row f.column) fun up => hi up f
    case some v =>
      cases v
      case resolved      => exact inquires_pure _
      case deferred text =>
        dsimp only
        cases compile text
        case ok next => exact hi row next
        case error   => exact inquires_throw _

theorem inquires_evaluate (s : Sweep) (f : Formula) :
    Inquires c fun st => (evaluate ⟨c, st⟩ s f).run := by
  simp only [evaluate]
  by_cases hd : s.row.table.declares f.column
  case neg =>
    simp only [hd]
    refine inquires_bind (inquires_ancestor s.row f.column) fun up => ?_
    exact inquires_bind (inquires_lookUp chainLimit up f) fun value => inquires_pure _
  case pos =>
    simp only [hd, if_true]
    split
    case isTrue  => exact inquires_throw _
    case isFalse =>
      split
      case isTrue  => exact inquires_pure _
      case isFalse => exact inquires_pure _

theorem inquires_attempt (s : Sweep) (t : Target) : Inquires c fun st => attempt ⟨c, st⟩ s t := by
  simp only [attempt]
  by_cases hp : t.cell ∈ s.pending
  case neg =>
    simp only [hp, if_false]
    exact .pure s
  case pos =>
    simp only [hp, if_true]
    refine (inquires_evaluate s t.formula).bind fun v => ?_
    split
    all_goals exact .pure _

theorem inquires_pass (ts : List Target) (s : Sweep) :
    Inquires c fun st => pass ⟨c, st⟩ ts s := by
  simp only [pass]
  induction ts generalizing s
  case nil => exact .pure s
  case cons t ts hi =>
    simp only [List.foldlM_cons]
    exact (inquires_attempt s t).bind hi

theorem inquires_passes (ts : List Target) (n : Nat) (s : Sweep) :
    Inquires c fun st => passes ⟨c, st⟩ ts n s := by
  induction n generalizing s
  case zero => exact .pure s
  case succ n hi =>
    simp only [passes]
    split
    case isTrue  => exact .pure s
    case isFalse =>
      refine (inquires_pass ts s).bind fun s' => ?_
      split
      case isTrue  => exact .pure s'
      case isFalse => exact hi s'

theorem inquires_resolveRow (row : Row) : Inquires c fun s => resolveRow ⟨c, s⟩ row := by
  simp only [resolveRow]
  exact (inquires_passes _ _ _).bind fun s => .pure _

theorem inquires_refreshHalf (row : Row) (column : Column) (half : Half) :
    Inquires c fun s => (refreshHalf ⟨c, s⟩ row column half).run := by
  simp only [refreshHalf]
  cases column.formulaFor half
  case none => exact inquires_pure row
  case some text =>
    dsimp only
    cases compile text
    case error => exact inquires_throw _
    case ok f =>
      dsimp only
      split
      case isTrue  => exact inquires_throw _
      case isFalse =>
        refine inquires_bind (inquires_lookUp _ row f) fun value => ?_
        cases row.setHalf column.id half value
        case ok    => exact inquires_pure _
        case error => exact inquires_throw _

theorem inquires_refreshColumn (row : Row) (column : String) :
    Inquires c fun s => refreshColumn ⟨c, s⟩ row column := by
  simp only [refreshColumn]
  cases row.table.column? column
  case none => exact .pure _
  case some declared =>
    refine (inquires_refreshHalf row declared .code).bind fun v => ?_
    cases v
    case error => exact .pure _
    case ok row =>
      refine (inquires_refreshHalf row declared .label).bind fun v => ?_
      cases v
      case error => exact .pure _
      case ok    => exact .pure _

end Inquires

section Steady

variable {a : Archive}

theorem Reading.steady_pure (v : α) : Steady a (pure v : Reading α).run :=
  .pure _

theorem Reading.steady_bind {m : Reading α} {f : α → Reading β} (hm : Steady a m.run)
    (hf : ∀ v, Steady a (f v).run) : Steady a (m >>= f).run := by
  rw [ExceptT.run_bind]
  refine hm.bind fun v => ?_
  cases v
  case error => exact .pure _
  case ok v  => exact hf v

theorem Reading.steady_parent (table : String) (id : RowId) :
    Steady a (Reading.parent a table id).run :=
  (inquires_parent table id).steady a.store

theorem steady_follow (row : Row) (path : List Relation) : Steady a (follow a row path).run :=
  (inquires_follow row path).steady a.store

theorem steady_ancestor (row : Row) (column : String) : Steady a (ancestor a row column).run :=
  (inquires_ancestor row column).steady a.store

theorem steady_lookUp (budget : Nat) (row : Row) (f : Formula) :
    Steady a (lookUp a budget row f).run :=
  (inquires_lookUp budget row f).steady a.store

theorem steady_attempt (s : Sweep) (t : Target) : Steady a (attempt a s t) :=
  (inquires_attempt s t).steady a.store

theorem steady_pass (ts : List Target) (s : Sweep) : Steady a (pass a ts s) :=
  (inquires_pass ts s).steady a.store

theorem steady_passes (ts : List Target) (n : Nat) (s : Sweep) : Steady a (passes a ts n s) :=
  (inquires_passes ts n s).steady a.store

theorem steady_resolveRow (row : Row) : Steady a (resolveRow a row) :=
  (inquires_resolveRow row).steady a.store

end Steady

end ReportExchange.Formula
