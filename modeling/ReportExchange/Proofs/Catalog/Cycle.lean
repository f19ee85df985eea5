import Mathlib.Data.List.Chain
import Mathlib.Data.List.Nodup
import Mathlib.Logic.Relation
import ReportExchange.Catalog.Basic
import ReportExchange.Proofs.Catalog.Order

namespace ReportExchange

namespace Acyclic

-- A direct relation leads from its parent to its child.
def Leads (relations : List Relation) (parent child : String) : Prop :=
  ∃ r ∈ relations, r.direct ∧ r.parent = parent ∧ r.child = child

-- A cycle begins and ends at one table, and goes through no other table twice.
structure IsCycle (relations : List Relation) (path : List String) : Prop where
  long     : 2 ≤ path.length
  closes   : path.head? = path.getLast?
  leads    : path.IsChain (Leads relations)
  distinct : path.dropLast.Nodup

-- The search with a bound of its own on the length of a path.
def checkWithin (fuel : Nat) (names : List String) (relations : List Relation) :
    Except (List String) (List String) :=
  names.foldlM (fun done name =>
    if name ∈ done then .ok done else visit relations fuel [] done name) []

variable {names openPath done path : List String} {relations : List Relation}
variable {name child : String}

theorem mem_childrenOf_iff : child ∈ childrenOf relations name ↔ Leads relations name child := by
  simp [childrenOf, Leads, and_assoc]

theorem childrenOf_congr {others : List Relation}
    (h : others.filter (·.direct) = relations.filter (·.direct)) (name : String) :
    childrenOf others name = childrenOf relations name := by
  have hf (rs : List Relation) : rs.filter (fun r => r.direct && r.parent = name) =
      (rs.filter (·.direct)).filter (·.parent = name) := by
    rw [List.filter_filter]
    exact List.filter_congr fun r _ => Bool.and_comm _ _
  rw [childrenOf, childrenOf, hf, hf, h]

theorem childrenOf_subset (known : ∀ r ∈ relations, r.parent ∈ names ∧ r.child ∈ names)
    (name : String) : childrenOf relations name ⊆ names := by
  intro child hc
  have ⟨r, hr, _, _, e⟩ := mem_childrenOf_iff.mp hc
  exact e ▸ (known r hr).2

theorem transGen_of_isChain {x : String} {xs : List String} {y : String}
    (h : (x :: xs ++ [y]).IsChain (Leads relations)) :
    Relation.TransGen (Leads relations) x y := by
  induction xs generalizing x
  case nil =>
    have hl := (List.isChain_cons_cons.mp h).1
    exact .single hl
  case cons z xs hi =>
    have ⟨hl, h⟩ := List.isChain_cons_cons.mp h
    exact .head hl (hi h)

theorem IsCycle.transGen (h : IsCycle relations path) :
    ∃ name, Relation.TransGen (Leads relations) name name := by
  have hl := h.long
  obtain _ | ⟨x, rest⟩ := path
  case nil => simp at hl
  case cons =>
    obtain rfl | ⟨xs, y, rfl⟩ := rest.eq_nil_or_concat'
    case inl => simp at hl
    case inr =>
      have he : x = y := by
        have hc := h.closes
        rw [List.head?_cons, ← List.cons_append, List.getLast?_concat] at hc
        exact Option.some.inj hc
      subst he
      exact ⟨x, transGen_of_isChain h.leads⟩

-- The path that is open leads from its outermost table to its innermost one, which stands first.
structure Open (relations : List Relation) (openPath : List String) : Prop where
  nodup : openPath.Nodup
  leads : openPath.IsChain fun child parent => Leads relations parent child

theorem Open.below (h : Open relations (name :: openPath)) (hc : child ∈ childrenOf relations name)
    (hn : child ∉ name :: openPath) : Open relations (child :: name :: openPath) where
  nodup := List.nodup_cons.mpr ⟨hn, h.nodup⟩
  leads := List.isChain_cons_cons.mpr ⟨mem_childrenOf_iff.mp hc, h.leads⟩

theorem cycleAt_append {inner outer : List String} (h : child ∉ inner) :
    cycleAt child (inner ++ child :: outer) = child :: inner.reverse ++ [child] := by
  have hw : (inner ++ child :: outer).takeWhile (· ≠ child) = inner := by
    rw [List.takeWhile_append_of_pos fun x hx => decide_eq_true (ne_of_mem_of_not_mem hx h),
      List.takeWhile_cons_of_neg (by simp), List.append_nil]
  rw [cycleAt, hw]

-- A step back to the open path closes a cycle: the part of the path from there on, and the step.
theorem Open.isCycle (h : Open relations (name :: openPath))
    (hc : child ∈ childrenOf relations name) (hm : child ∈ name :: openPath) :
    IsCycle relations (cycleAt child (name :: openPath)) := by
  obtain ⟨inner, outer, e, hi⟩ := List.eq_append_cons_of_mem hm
  rw [e, cycleAt_append hi]
  have hp : inner ++ [child] <+: name :: openPath := ⟨outer, by rw [e]; simp⟩
  have hr : child :: inner.reverse = (inner ++ [child]).reverse := by simp
  have hn : (child :: inner.reverse).Nodup := by
    rw [hr, List.nodup_reverse]
    exact hp.sublist.nodup h.nodup
  have hs : (child :: inner.reverse).IsChain (Leads relations) := by
    rw [hr, List.isChain_reverse]
    exact h.leads.prefix hp
  -- The part of the path ends where the step begins.
  have hlast : (child :: inner.reverse).getLast? = some name := by
    rw [hr, List.getLast?_reverse]
    obtain ⟨outer, e⟩ := hp
    cases inner <;> simp_all
  refine ⟨?long, ?closes, ?leads, ?distinct⟩
  case long     => simp
  case closes   => rw [List.getLast?_concat]; rfl
  case leads    =>
    refine hs.append (.singleton _) fun x hx y hy => ?_
    rw [hlast] at hx
    cases hx
    cases hy
    exact mem_childrenOf_iff.mp hc
  case distinct => rwa [List.dropLast_concat]

theorem visit_error {fuel : Nat} (h : visit relations fuel openPath done name = .error path)
    (ho : Open relations (name :: openPath)) : IsCycle relations path := by
  induction fuel generalizing openPath done name
  case zero => cases h
  case succ fuel hi =>
    rw [visit] at h
    obtain he | ⟨_, _, he⟩ := bind_eq_error.mp h
    case inr => cases he
    case inl =>
      obtain ⟨child, hc, d, he⟩ := exists_of_foldlM_eq_error he
      split at he
      case isTrue hm =>
        cases he
        exact ho.isCycle hc hm
      case isFalse hm =>
        split at he
        case isTrue  => cases he
        case isFalse => exact hi he (ho.below hc hm)

theorem check_error (h : check names relations = .error path) : IsCycle relations path := by
  obtain ⟨name, _, done, he⟩ := exists_of_foldlM_eq_error h
  split at he
  case isTrue  => cases he
  case isFalse => exact visit_error he ⟨by simp, .singleton _⟩

-- The order in which the tables are done leads downwards, so it leads back to none of them.
theorem Done.not_transGen (d : Done names relations done) (hn : names ⊆ done)
    (known : ∀ r ∈ relations, r.parent ∈ names ∧ r.child ∈ names) (name : String) :
    ¬ Relation.TransGen (Leads relations) name name := by
  have hl {x y : String} (h : Relation.TransGen (Leads relations) x y) :
      height done y < height done x := by
    have step {x y : String} (h : Leads relations x y) : height done y < height done x := by
      have ⟨r, hr, _, hp, _⟩ := h
      exact d.height_lt (hn (hp ▸ (known r hr).1)) (mem_childrenOf_iff.mpr h)
    induction h
    case single h     => exact step h
    case tail h hi    => exact (step h).trans hi
  exact fun h => Nat.lt_irrefl _ (hl h)

-- Where the bound is not met, it makes no difference.
theorem visit_eq_of_fueled (closed : ∀ name, childrenOf relations name ⊆ names) {fuel more : Nat}
    (hf : Fueled names fuel openPath name) (hm : fuel ≤ more) (done : List String) :
    visit relations more openPath done name = visit relations fuel openPath done name := by
  induction fuel generalizing openPath more name done
  case zero => exact absurd hf.pos (Nat.lt_irrefl 0)
  case succ fuel hi =>
    obtain _ | more := more
    case zero => cases hm
    case succ =>
      rw [visit, visit]
      congr 1
      refine foldlM_congr fun child hc d => ?_
      split
      case isTrue  => rfl
      case isFalse hn =>
        rw [hi (hf.below (closed name hc) hn) (Nat.le_of_succ_le_succ hm)]

theorem checkWithin_eq_check (closed : ∀ name, childrenOf relations name ⊆ names) {fuel : Nat}
    (hm : names.length ≤ fuel) : checkWithin fuel names relations = check names relations := by
  refine foldlM_congr fun name hn d => ?_
  have hf : Fueled names names.length [] name := by
    refine ⟨by simp, ?_, by simp⟩
    exact List.cons_subset.mpr ⟨hn, List.nil_subset _⟩
  rw [visit_eq_of_fueled closed hf hm]

theorem visit_congr {others : List Relation}
    (h : ∀ name, childrenOf others name = childrenOf relations name) (fuel : Nat)
    (openPath done : List String) (name : String) :
    visit others fuel openPath done name = visit relations fuel openPath done name := by
  induction fuel generalizing openPath done name
  case zero         => rfl
  case succ fuel hi => simp only [visit, h, hi]

theorem check_congr {others : List Relation}
    (h : others.filter (·.direct) = relations.filter (·.direct)) :
    check names others = check names relations := by
  simp only [check, visit_congr (childrenOf_congr h)]

end Acyclic

namespace Catalog

open Acyclic

-- The check passes exactly the definitions whose direct relations have no cycle, and else reports
-- one of the cycles. Nothing but the direct relations counts, and no bound that is large enough to
-- go through all tables cuts the search short.
theorem checkAcyclic_decides (d : CatalogDefinition)
    (known : ∀ r ∈ d.relations, r.parent ∈ d.names ∧ r.child ∈ d.names) :
    (checkAcyclic d = .ok () ↔
      ∀ name, ¬ Relation.TransGen (Leads d.relations) name name) ∧
    (∀ e, checkAcyclic d = .error e →
      ∃ path, e = .relationCycle path ∧ IsCycle d.relations path) ∧
    (∀ other : CatalogDefinition, other.names = d.names →
      other.relations.filter (·.direct) = d.relations.filter (·.direct) →
      checkAcyclic other = checkAcyclic d) ∧
    ∀ fuel, d.names.length ≤ fuel →
      checkWithin fuel d.names d.relations = check d.names d.relations := by
  have closed := childrenOf_subset known
  refine ⟨?_, ?_, ?_, fun fuel hm => checkWithin_eq_check closed hm⟩
  case refine_1 =>
    rw [checkAcyclic]
    cases hc : check d.names d.relations
    case ok done =>
      have ⟨hd, hn⟩ := check_ok closed hc
      exact iff_of_true rfl (hd.not_transGen hn known)
    case error path =>
      have ⟨name, hl⟩ := (check_error hc).transGen
      exact iff_of_false (by simp) fun h => h name hl
  case refine_2 =>
    intro e h
    rw [checkAcyclic] at h
    cases hc : check d.names d.relations <;> rw [hc] at h <;> cases h
    case error path => exact ⟨path, rfl, check_error hc⟩
  case refine_3 =>
    intro other hn hr
    rw [checkAcyclic, checkAcyclic, hn, check_congr hr]

-- A run has plates and a plate has wells, and a relation leads from the wells back to the plates.
def backward (direct : Bool) : CatalogDefinition where
  tables    := [{ name := "run" }, { name := "plate" }, { name := "well" }]
  relations := [
    { parent := "run", child := "plate" }, { parent := "plate", child := "well" },
    { parent := "well", child := "plate", direct }]

theorem checkAcyclic_decides_backward :
    checkAcyclic (backward true) = .error (.relationCycle ["plate", "well", "plate"]) ∧
    IsCycle (backward true).relations ["plate", "well", "plate"] ∧
    ∀ name, ¬ Relation.TransGen (Leads (backward false).relations) name name := by
  have ⟨_, hcycle, _⟩ := checkAcyclic_decides (backward true) (by decide)
  have ⟨hnone, _⟩ := checkAcyclic_decides (backward false) (by decide)
  have he : checkAcyclic (backward true) = .error (.relationCycle ["plate", "well", "plate"]) := by
    decide
  obtain ⟨path, e, hc⟩ := hcycle _ he
  cases e
  exact ⟨he, hc, hnone.mp (by decide)⟩

end Catalog

end ReportExchange
