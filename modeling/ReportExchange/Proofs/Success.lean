namespace ReportExchange

variable {α β γ ε : Type}

theorem bind_eq_ok {x : Except ε α} {f : α → Except ε β} {b : β} :
    x >>= f = .ok b ↔ ∃ a, x = .ok a ∧ f a = .ok b := by
  cases x <;> simp [bind, Except.bind]

theorem bind_eq_error {x : Except ε α} {f : α → Except ε β} {e : ε} :
    x >>= f = .error e ↔ x = .error e ∨ ∃ a, x = .ok a ∧ f a = .error e := by
  cases x <;> simp [bind, Except.bind]

theorem map_eq_ok {x : Except ε α} {f : α → β} {b : β} :
    x.map f = .ok b ↔ ∃ a, x = .ok a ∧ f a = b := by
  cases x <;> simp [Except.map]

theorem map_eq_error {x : Except ε α} {f : α → β} {e : ε} :
    x.map f = .error e ↔ x = .error e := by
  cases x <;> simp [Except.map]

theorem exists_eq_ok {x : Except ε α} (h : x.isOk) : ∃ a, x = .ok a := by
  cases x
  case error => cases h
  case ok a  => exact ⟨a, rfl⟩

theorem mapM_eq_ok {f : α → Except ε β} {g : α → β} {as : List α} (h : ∀ a ∈ as, f a = .ok (g a)) :
    as.mapM f = .ok (as.map g) := by
  induction as
  case nil => rfl
  case cons a as hi =>
    rw [List.mapM_cons, h a List.mem_cons_self, hi fun x hx => h x (List.mem_cons_of_mem _ hx)]
    rfl

-- What has been encoded one by one is decoded one by one.
theorem mapM_map_eq_some {f : α → Option β} {g : β → α} {bs : List β}
    (h : ∀ b ∈ bs, f (g b) = some b) : (bs.map g).mapM f = some bs := by
  induction bs
  case nil => rfl
  case cons b bs hi =>
    rw [List.map_cons, List.mapM_cons, h b List.mem_cons_self,
      hi fun x hx => h x (List.mem_cons_of_mem _ hx)]
    rfl

theorem exists_of_mem_mapM {f : α → Option β} {as : List α} {bs : List β} {b : β}
    (h : as.mapM f = some bs) (hb : b ∈ bs) : ∃ a ∈ as, f a = some b := by
  induction as generalizing bs
  case nil =>
    cases h
    cases hb
  case cons a as hi =>
    rw [List.mapM_cons] at h
    obtain ⟨x, hx, h⟩ := Option.bind_eq_some_iff.mp h
    obtain ⟨xs, hxs, h⟩ := Option.bind_eq_some_iff.mp h
    cases h
    obtain rfl | hb := List.mem_cons.mp hb
    case inl => exact ⟨a, List.mem_cons_self, hx⟩
    case inr =>
      obtain ⟨c, hc, hf⟩ := hi hxs hb
      exact ⟨c, List.mem_cons_of_mem _ hc, hf⟩

-- A loop keeps what each of its rounds keeps, and leaves behind what each round achieves as long as
-- no later one undoes it.
theorem foldlM_ok (inv : β → Prop) (grows : β → β → Prop) (achieved : α → β → Prop)
    {f : β → α → Except ε β} {as : List α} {b b' : β}
    (refl : ∀ b, grows b b) (trans : ∀ {b₁ b₂ b₃}, grows b₁ b₂ → grows b₂ b₃ → grows b₁ b₃)
    (keeps : ∀ {a b₁ b₂}, grows b₁ b₂ → achieved a b₁ → achieved a b₂)
    (round : ∀ a ∈ as, ∀ {b b'}, f b a = .ok b' → inv b → inv b' ∧ grows b b' ∧ achieved a b')
    (h : as.foldlM f b = .ok b') (hb : inv b) :
    inv b' ∧ grows b b' ∧ ∀ a ∈ as, achieved a b' := by
  induction as generalizing b
  case nil =>
    cases h
    exact ⟨hb, refl _, nofun⟩
  case cons a as hi =>
    rw [List.foldlM_cons] at h
    have ⟨mid, h₁, h₂⟩ := bind_eq_ok.mp h
    have ⟨im, gm, am⟩ := round a List.mem_cons_self h₁ hb
    have ⟨i', g', as'⟩ := hi (fun x hx => round x (List.mem_cons_of_mem _ hx)) h₂ im
    refine ⟨i', trans gm g', fun x hx => ?_⟩
    cases List.mem_cons.mp hx
    case inl e => exact e ▸ keeps g' am
    case inr e => exact as' x e

theorem foldlM_inv (inv : β → Prop) {f : β → α → Except ε β} {as : List α} {b b' : β}
    (round : ∀ a ∈ as, ∀ {b b'}, f b a = .ok b' → inv b → inv b') (h : as.foldlM f b = .ok b')
    (hb : inv b) : inv b' := by
  have ⟨hi, _⟩ := foldlM_ok inv (fun _ _ => True) (fun _ _ => True) (fun _ => trivial)
    (fun _ _ => trivial) (fun _ _ => trivial)
    (fun a ha _ _ hf hb => ⟨round a ha hf hb, trivial, trivial⟩) h hb
  exact hi

-- A loop fails in one of its rounds.
theorem exists_of_foldlM_eq_error {f : β → α → Except ε β} {as : List α} {b : β} {e : ε}
    (h : as.foldlM f b = .error e) : ∃ a ∈ as, ∃ b, f b a = .error e := by
  induction as generalizing b
  case nil => cases h
  case cons a as hi =>
    rw [List.foldlM_cons] at h
    obtain h | ⟨mid, _, h⟩ := bind_eq_error.mp h
    case inl => exact ⟨a, List.mem_cons_self, b, h⟩
    case inr =>
      obtain ⟨x, hx, round⟩ := hi h
      exact ⟨x, List.mem_cons_of_mem _ hx, round⟩

theorem foldlM_congr {f g : β → α → Except ε β} {as : List α} {b : β}
    (h : ∀ a ∈ as, ∀ b, f b a = g b a) : as.foldlM f b = as.foldlM g b := by
  induction as generalizing b
  case nil => rfl
  case cons a as hi =>
    rw [List.foldlM_cons, List.foldlM_cons, h a List.mem_cons_self]
    congr 1
    funext mid
    exact hi fun x hx => h x (List.mem_cons_of_mem _ hx)

-- Two results that are either the same error, or values that match.
inductive Matched (R : α → β → Prop) : Except ε α → Except ε β → Prop
  | ok {a : α} {b : β} : R a b → Matched R (.ok a) (.ok b)
  | error (e : ε) : Matched R (.error e) (.error e)

namespace Matched

variable {R : α → β → Prop} {x : Except ε α} {y : Except ε β}

theorem bind {δ : Type} {S : γ → δ → Prop} {f : α → Except ε γ} {g : β → Except ε δ}
    (h : Matched R x y) (hf : ∀ a b, R a b → Matched S (f a) (g b)) :
    Matched S (x >>= f) (y >>= g) := by
  cases h
  case ok h    => exact hf _ _ h
  case error e => exact .error e

theorem bind_eq {f : α → Except ε γ} {g : β → Except ε γ} (h : Matched R x y)
    (hf : ∀ a b, R a b → f a = g b) : x >>= f = y >>= g := by
  cases h
  case ok h    => exact hf _ _ h
  case error e => rfl

theorem mono {S : α → β → Prop} (h : Matched R x y) (hs : ∀ a b, R a b → S a b) :
    Matched S x y := by
  cases h
  case ok h    => exact .ok (hs _ _ h)
  case error e => exact .error e

theorem and_left {P : α → Prop} (h : Matched R x y) (hp : ∀ a, x = .ok a → P a) :
    Matched (fun a b => P a ∧ R a b) x y := by
  cases h
  case ok h    => exact .ok ⟨hp _ rfl, h⟩
  case error e => exact .error e

theorem mapError {ζ : Type} (f : ε → ζ) (h : Matched R x y) :
    Matched R (x.mapError f) (y.mapError f) := by
  cases h
  case ok h    => exact .ok h
  case error e => exact .error (f e)

end Matched

end ReportExchange
