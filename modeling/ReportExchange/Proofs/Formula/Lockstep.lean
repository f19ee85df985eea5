import ReportExchange.Proofs.Formula.Passes
import ReportExchange.Proofs.Report.Archive

namespace ReportExchange

variable {a a' : Archive}

theorem Archive.parent_matched {R : Row → Row → Prop}
    (hc : ∀ name, (a'.catalog.table? name).isSome = (a.catalog.table? name).isSome)
    (hs : a.store.Matches R a'.store) (hi : ∀ r r', R r r' → r'.id = r.id) (table : String)
    (id : RowId) : Matched R (a.parent table id) (a'.parent table id) := by
  have ht := hc table
  simp only [parent, Catalog.table]
  cases h : a.catalog.table? table <;> cases h' : a'.catalog.table? table <;>
    simp only [h, h', Option.isSome] at ht
  case none.none => exact .error _
  case some.some t t' =>
    have hf := hs.find? hi table id
    simp only [Catalog.name_of_table? h, Catalog.name_of_table? h']
    cases e : a.store.find? table id <;> cases e' : a'.store.find? table id <;>
      simp only [e, e'] at hf ⊢
    case none.none => exact .error _
    case some.some =>
      cases hf
      case some hr => exact .ok hr
    all_goals cases hf
  all_goals cases ht

namespace Formula

variable {r r' : Row} {f : Formula}

-- `S path` says which rows match with a way to climb still before them.
theorem follow_matched {S : List Relation → Row → Row → Prop}
    (step : ∀ up path r r', S (up :: path) r r' →
      r'.table.name = r.table.name ∧ r'.parentId up.parent = r.parentId up.parent ∧
      ∀ id, Matched (S path) (a.parent up.parent id) (a'.parent up.parent id))
    {path : List Relation} (h : S path r r') :
    Matched (S []) (follow a r path).value (follow a' r' path).value := by
  induction path generalizing r r'
  case nil => exact .ok h
  case cons up path hi =>
    have ⟨hn, hk, hp⟩ := step up path r r' h
    simp only [value_follow_cons, hn, hk]
    cases r.parentId up.parent
    case none    => exact .error _
    case some id => exact ((hp id).mapError _).bind fun _ _ => hi

-- Rows that match for a formula give it the same answer, or lead it on to rows that match.
structure InStep (a a' : Archive) (R : Formula → Row → Row → Prop) : Prop where
  resolve  : ∀ {f r r'}, R f r r' → f.resolve r' = f.resolve r
  next     : ∀ {f g r r' text}, R f r r' → f.resolve r = some (.deferred text) →
    compile text = .ok g → R g r r'
  ancestor : ∀ {f r r'}, R f r r' → f.resolve r = none →
    Matched (R f) (ancestor a r f.column).value (ancestor a' r' f.column).value

namespace InStep

variable {R : Formula → Row → Row → Prop}

theorem lookUp_eq (h : InStep a a' R) (n : Nat) (hr : R f r r') :
    (lookUp a n r f).value = (lookUp a' n r' f).value := by
  induction n generalizing r r' f
  case zero => rfl
  case succ n hi =>
    simp only [value_lookUp_succ, h.resolve hr]
    cases hv : f.resolve r
    case none   => exact (h.ancestor hr hv).bind_eq fun _ _ => hi
    case some v =>
      cases v
      case resolved      => rfl
      case deferred text =>
        dsimp only
        split
        case h_1 g hc => exact hi (h.next hr hv hc)
        case h_2      => rfl

theorem above_eq (h : InStep a a' R)
    (hr : Matched (R f) (Formula.ancestor a r f.column).value
      (Formula.ancestor a' r' f.column).value) : a.above r f = a'.above r' f :=
  hr.bind_eq fun _ _ => h.lookUp_eq chainLimit

end InStep

end Formula

end ReportExchange
