import Mathlib.Data.List.Forall2

namespace ReportExchange

variable {α κ : Type} [DecidableEq κ] {f : α → κ} {l : List α} {a : α}

theorem find?_key_eq_some (hn : (l.map f).Nodup) (h : a ∈ l) :
    l.find? (f · = f a) = some a := by
  induction l
  case nil => cases h
  case cons x l hi =>
    have ⟨hx, hn⟩ := List.nodup_cons.mp hn
    cases List.mem_cons.mp h
    case inl e =>
      subst e
      exact List.find?_cons_of_pos (decide_eq_true rfl)
    case inr hm =>
      have hne : f x ≠ f a := fun e => hx (e ▸ List.mem_map_of_mem hm)
      rw [List.find?_cons_of_neg (by simpa using hne)]
      exact hi hn hm

theorem find?_key_eq_some_iff (hn : (l.map f).Nodup) {k : κ} :
    l.find? (f · = k) = some a ↔ a ∈ l ∧ f a = k := by
  constructor
  case mp =>
    intro h
    have hk := List.find?_some h
    exact ⟨List.mem_of_find?_eq_some h, of_decide_eq_true hk⟩
  case mpr =>
    rintro ⟨hm, rfl⟩
    exact find?_key_eq_some hn hm

-- No more than one entry has a key.
theorem filter_key_eq (hn : (l.map f).Nodup) (k : κ) :
    l.filter (f · = k) = (l.find? (f · = k)).toList := by
  induction l
  case nil => rfl
  case cons x l hi =>
    obtain ⟨hx, hn⟩ := List.nodup_cons.mp hn
    by_cases e : f x = k
    case neg =>
      rw [List.filter_cons_of_neg (by simpa using e), List.find?_cons_of_neg (by simpa using e)]
      exact hi hn
    case pos =>
      have hnone : l.filter (f · = k) = [] := by
        refine List.filter_eq_nil_iff.mpr fun y hy he => hx ?_
        rw [e, ← of_decide_eq_true he]
        exact List.mem_map_of_mem hy
      rw [List.filter_cons_of_pos (by simpa using e), List.find?_cons_of_pos (by simpa using e),
        hnone]
      rfl

theorem countP_key_eq_one (hn : (l.map f).Nodup) (h : a ∈ l) : l.countP (f · = f a) = 1 := by
  rw [List.countP_eq_length_filter, filter_key_eq hn, find?_key_eq_some hn h]
  rfl

-- Lists that match give matches, if both are asked for the same.
theorem find?_forall₂ {β : Type} {R : α → β → Prop} {l : List α} {m : List β} {p : α → Bool}
    {q : β → Bool} (h : List.Forall₂ R l m) (hp : ∀ x y, R x y → q y = p x) :
    Option.Rel R (l.find? p) (m.find? q) := by
  induction h
  case nil => exact .none
  case cons x y _ _ hr _ hi =>
    cases hx : p x
    case false => simpa [List.find?_cons, hx, hp x y hr] using hi
    case true  => simpa [List.find?_cons, hx, hp x y hr] using Option.Rel.some hr

theorem isSome_of_rel {β : Type} {R : α → β → Prop} {x : Option α} {y : Option β}
    (h : Option.Rel R x y) : y.isSome = x.isSome := by
  cases h <;> rfl

theorem exists_of_mem_forall₂ {β : Type} {R : α → β → Prop} {l : List α} {m : List β} {y : β}
    (h : List.Forall₂ R l m) (hy : y ∈ m) : ∃ x ∈ l, R x y := by
  induction h
  case nil => cases hy
  case cons hr _ hi =>
    cases List.mem_cons.mp hy
    case inl e  => exact ⟨_, List.mem_cons_self, e ▸ hr⟩
    case inr hy =>
      have ⟨x, hx, hr⟩ := hi hy
      exact ⟨x, List.mem_cons_of_mem _ hx, hr⟩

theorem exists_forall₂ {β : Type} {R : α → β → Prop} {l : List α} (h : ∀ x ∈ l, ∃ y, R x y) :
    ∃ m, List.Forall₂ R l m := by
  induction l
  case nil => exact ⟨[], .nil⟩
  case cons x l hi =>
    obtain ⟨y, hy⟩ := h x List.mem_cons_self
    obtain ⟨m, hm⟩ := hi fun x hx => h x (List.mem_cons_of_mem _ hx)
    exact ⟨y :: m, .cons hy hm⟩

theorem map_eq_of_forall₂ {β γ : Type} {R : α → β → Prop} {l : List α} {m : List β} {f : α → γ}
    {g : β → γ} (h : List.Forall₂ R l m) (hf : ∀ x y, R x y → g y = f x) : m.map g = l.map f := by
  induction h
  case nil           => rfl
  case cons hr _ hi => rw [List.map_cons, List.map_cons, hf _ _ hr, hi]

-- Entries that are kept or replaced under their keys, or left out.
theorem sublist_map_filterMap {β γ : Type} {f : α → Option β} {g : β → γ} {k : α → γ} (l : List α)
    (h : ∀ x y, f x = some y → g y = k x) : ((l.filterMap f).map g).Sublist (l.map k) := by
  induction l
  case nil => exact .slnil
  case cons x l hi =>
    rw [List.filterMap_cons]
    split
    case h_1 => exact hi.cons _
    case h_2 y hy =>
      rw [List.map_cons, List.map_cons, h x y hy]
      exact hi.cons_cons _

theorem filter_eq_of_nodup {l : List κ} (hn : l.Nodup) (k : κ) :
    l.filter (· = k) = if k ∈ l then [k] else [] := by
  induction l
  case nil => rfl
  case cons x l hi =>
    have ⟨hx, hn⟩ := List.nodup_cons.mp hn
    by_cases e : x = k
    case neg => simp [e, Ne.symm e, hi hn]
    case pos =>
      subst e
      simp [hi hn, hx]

end ReportExchange
