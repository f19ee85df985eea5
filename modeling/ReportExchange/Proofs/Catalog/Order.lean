import Mathlib.Data.List.Perm.Subperm
import ReportExchange.Catalog.Acyclic
import ReportExchange.Proofs.Success

namespace ReportExchange.Acyclic

-- The table that was done last stands first, so everything below a table stands after it.
def Ordered (relations : List Relation) : List String → Prop
  | []           => True
  | name :: rest => childrenOf relations name ⊆ rest ∧ Ordered relations rest

structure Done (names : List String) (relations : List Relation) (done : List String) : Prop where
  nodup   : done.Nodup
  known   : done ⊆ names
  ordered : Ordered relations done

-- What a part of the search that stays below an open path has added to the tables that are done:
-- none of the path itself.
structure Grown (openPath done done' : List String) : Prop where
  keeps : done ⊆ done'
  fresh : ∀ name ∈ done', name ∈ done ∨ name ∉ openPath

namespace Grown

variable {openPath d₁ d₂ d₃ : List String}

theorem refl (d : List String) : Grown openPath d d where
  keeps := List.Subset.refl _
  fresh _ := .inl

theorem trans (g : Grown openPath d₁ d₂) (h : Grown openPath d₂ d₃) : Grown openPath d₁ d₃ where
  keeps := List.Subset.trans g.keeps h.keeps
  fresh name hn := (h.fresh name hn).elim (g.fresh name) .inr

end Grown

-- A path has no table twice, so there is fuel left as long as it has not been through all of them.
structure Fueled (names : List String) (fuel : Nat) (openPath : List String) (name : String) :
    Prop where
  nodup  : (name :: openPath).Nodup
  known  : name :: openPath ⊆ names
  enough : names.length ≤ openPath.length + fuel

namespace Fueled

variable {names openPath : List String} {fuel : Nat} {name : String}

theorem pos (h : Fueled names fuel openPath name) : 0 < fuel := by
  have hl := (List.subperm_of_subset h.nodup h.known).length_le
  have he := h.enough
  rw [List.length_cons] at hl
  omega

theorem below {child : String} (h : Fueled names (fuel + 1) openPath name) (hc : child ∈ names)
    (hn : child ∉ name :: openPath) : Fueled names fuel (name :: openPath) child where
  nodup  := List.nodup_cons.mpr ⟨hn, h.nodup⟩
  known  := List.cons_subset.mpr ⟨hc, h.known⟩
  enough := by
    have he := h.enough
    rw [List.length_cons]
    omega

end Fueled

variable {names : List String} {relations : List Relation} {openPath done done' : List String}
variable (closed : ∀ name, childrenOf relations name ⊆ names)

include closed

-- The tables below are done by the induction hypothesis. The table itself is not among them, since
-- it is on the path that leads to them.
theorem visit_ok {fuel : Nat} {name : String} (hf : Fueled names fuel openPath name)
    (hn : name ∉ done) (h : visit relations fuel openPath done name = .ok done')
    (d : Done names relations done) :
    Done names relations done' ∧ Grown openPath done done' ∧ name ∈ done' := by
  induction fuel generalizing openPath done done' name
  case zero => exact absurd hf.pos (Nat.lt_irrefl 0)
  case succ fuel hi =>
    rw [visit] at h
    have ⟨below, hb, h⟩ := bind_eq_ok.mp h
    cases h
    have ⟨db, gb, hs⟩ := foldlM_ok (Done names relations) (Grown (name :: openPath))
      (fun child done => child ∈ done) Grown.refl Grown.trans (fun g hc => g.keeps hc)
      (by
        intro child hc done done' h d
        split at h
        case isTrue => cases h
        case isFalse hp =>
          split at h
          case isTrue hd =>
            cases h
            exact ⟨d, .refl _, hd⟩
          case isFalse hd => exact hi (hf.below (closed name hc) hp) hd h d)
      hb d
    have hnb : name ∉ below :=
      fun hm => (gb.fresh name hm).elim hn (absurd List.mem_cons_self)
    refine ⟨⟨?_, ?_, ?_⟩, ⟨?_, ?_⟩, List.mem_cons_self⟩
    case refine_1 => exact List.nodup_cons.mpr ⟨hnb, db.nodup⟩
    case refine_2 => exact List.cons_subset.mpr ⟨hf.known List.mem_cons_self, db.known⟩
    case refine_3 => exact ⟨hs, db.ordered⟩
    case refine_4 => exact List.Subset.trans gb.keeps (List.subset_cons_self _ _)
    case refine_5 =>
      intro x hx
      cases List.mem_cons.mp hx
      case inl e => exact .inr (e ▸ (List.nodup_cons.mp hf.nodup).1)
      case inr e => exact (gb.fresh x e).imp_right (mt (List.mem_cons_of_mem _))

theorem check_ok (h : check names relations = .ok done) :
    Done names relations done ∧ names ⊆ done := by
  have ⟨d, _, hs⟩ := foldlM_ok (Done names relations) (Grown []) (fun name done => name ∈ done)
    Grown.refl Grown.trans (fun g hc => g.keeps hc)
    (by
      intro name hm done done' h d
      split at h
      case isTrue hd =>
        cases h
        exact ⟨d, .refl _, hd⟩
      case isFalse hd =>
        refine visit_ok closed ⟨?_, ?_, ?_⟩ hd h d
        case refine_1 => simp
        case refine_2 => exact List.cons_subset.mpr ⟨hm, List.nil_subset _⟩
        case refine_3 => simp)
    h ⟨List.nodup_nil, List.nil_subset _, trivial⟩
  exact ⟨d, hs⟩

omit closed

-- How many tables were done before one of them.
def height (done : List String) (name : String) : Nat :=
  done.reverse.idxOf name

theorem height_lt_length {name : String} (h : name ∈ done) : height done name < done.length := by
  rw [height, ← List.length_reverse]
  exact List.idxOf_lt_length_of_mem (List.mem_reverse.mpr h)

theorem height_cons {name x : String} (h : name ∈ done) :
    height (x :: done) name = height done name := by
  rw [height, List.reverse_cons, List.idxOf_append_of_mem (List.mem_reverse.mpr h), height]

theorem height_cons_self {name : String} (h : name ∉ done) :
    height (name :: done) name = done.length := by
  rw [height, List.reverse_cons, List.idxOf_append_of_notMem (by simpa using h)]
  simp

theorem Ordered.mem {name child : String} (o : Ordered relations done) (h : name ∈ done)
    (hc : child ∈ childrenOf relations name) : child ∈ done := by
  induction done
  case nil => cases h
  case cons x rest hi =>
    apply List.mem_cons_of_mem
    cases List.mem_cons.mp h
    case inl e => exact o.1 (e ▸ hc)
    case inr e => exact hi o.2 e

theorem Done.height_lt {name child : String} (d : Done names relations done) (h : name ∈ done)
    (hc : child ∈ childrenOf relations name) : height done child < height done name := by
  have hn := d.nodup
  have ho := d.ordered
  clear d
  induction done
  case nil => cases h
  case cons x rest hi =>
    have ⟨hx, hr⟩ := List.nodup_cons.mp hn
    cases List.mem_cons.mp h
    case inl e =>
      subst e
      have hm := ho.1 hc
      rw [height_cons hm, height_cons_self hx]
      exact height_lt_length hm
    case inr e =>
      rw [height_cons e, height_cons (ho.2.mem e hc)]
      exact hi e hr ho.2

end ReportExchange.Acyclic
