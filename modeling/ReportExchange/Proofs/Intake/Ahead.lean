import ReportExchange.Proofs.Intake.Grammar
import ReportExchange.Proofs.Success

namespace ReportExchange.Grammar

open Text Xml

variable {α σ κ : Type} {Content : String → List Token → α → Prop} {name : κ → String}
variable {note : σ → α → Except FieldFault σ} {next : σ → List Token → Prop} {s : σ}
variable {tag text t : String} {ts : List Token}

-- Ahead is the content of the element that is open, which is noted, then its end and what follows.
def Upto (Content : List Token → α → Prop) (note : σ → α → Except FieldFault σ)
    (next : σ → List Token → Prop) (s : σ) (ts : List Token) : Prop :=
  ∃ us x vs s', ts = us ++ .closing :: vs ∧ Content us x ∧ note s x = .ok s' ∧ next s' vs

-- Ahead is what is left of an element that encloses others, which are noted one by one.
def Inside (Content : String → List Token → α → Prop) (note : σ → α → Except FieldFault σ) :
    (σ → List Token → Prop) → σ → List Token → Prop :=
  Upto (Elements Content) (List.foldlM note)

-- Ahead is what is left of a field that has some text already.
def InsideField (note : σ → κ × String → Except FieldFault σ) (next : σ → List Token → Prop)
    (k : κ) (text : String) (s : σ) (ts : List Token) : Prop :=
  ∃ us t vs s', ts = us ++ .closing :: vs ∧ Texts us t ∧ note s (k, text ++ t) = .ok s' ∧ next s' vs

theorem not_upto_nil {Content : List Token → α → Prop} : ¬Upto Content note next s [] := by
  rintro ⟨us, _, _, _, h, _⟩
  cases us <;> cases h

theorem not_insideField_nil {note : σ → κ × String → Except FieldFault σ} {k : κ} :
    ¬InsideField note next k text s [] := by
  rintro ⟨us, _, _, _, h, _⟩
  cases us <;> cases h

theorem inside_closing_iff : Inside Content note next s (.closing :: ts) ↔ next s ts := by
  constructor
  case mpr => exact fun h => ⟨[], [], ts, s, rfl, .nil, rfl, h⟩
  case mp =>
    rintro ⟨us, xs, vs, s', e, hc, hn, hx⟩
    cases us
    case nil =>
      cases e
      cases hc
      cases hn
      exact hx
    case cons =>
      cases e
      exact absurd hc not_elements_closing

theorem inside_text_iff :
    Inside Content note next s (.text t :: ts) ↔ allBlank t ∧ Inside Content note next s ts := by
  constructor
  case mpr =>
    rintro ⟨hb, us, xs, vs, s', rfl, hc, hn, hx⟩
    exact ⟨.text t :: us, xs, vs, s', rfl, .blank hb hc, hn, hx⟩
  case mp =>
    rintro ⟨us, xs, vs, s', e, hc, hn, hx⟩
    cases us
    case nil  => cases e
    case cons =>
      cases e
      obtain ⟨hb, hc⟩ := elements_text_iff.mp hc
      exact ⟨hb, _, xs, vs, s', rfl, hc, hn, hx⟩

-- The first of the elements ahead is noted first.
theorem inside_opening_iff :
    Inside Content note next s (.opening tag :: ts) ↔
      Upto (Content tag) note (Inside Content note next) s ts := by
  constructor
  case mpr =>
    rintro ⟨us, x, _, mid, rfl, hc, hm, vs, xs, ws, s', rfl, hs, hn, hx⟩
    refine ⟨.opening tag :: (us ++ .closing :: vs), x :: xs, ws, s', ?_, .cons hc hs, ?_, hx⟩
    case refine_1 => simp
    case refine_2 => rw [List.foldlM_cons]; exact bind_eq_ok.mpr ⟨mid, hm, hn⟩
  case mp =>
    rintro ⟨us, xs, vs, s', e, hc, hn, hx⟩
    cases us
    case nil  => cases e
    case cons =>
      cases e
      obtain ⟨us, x, ws, ys, rfl, hx', hs, rfl⟩ := elements_opening_iff.mp hc
      rw [List.foldlM_cons] at hn
      obtain ⟨mid, hm, hn⟩ := bind_eq_ok.mp hn
      exact ⟨us, x, _, mid, by simp, hx', hm, ws, ys, vs, s', rfl, hs, hn, hx⟩

variable {note : σ → κ × String → Except FieldFault σ} {k : κ}

theorem insideField_closing_iff :
    InsideField note next k text s (.closing :: ts) ↔
      ∃ s', note s (k, text) = .ok s' ∧ next s' ts := by
  constructor
  case mpr =>
    rintro ⟨s', hn, hx⟩
    exact ⟨[], "", ts, s', rfl, .nil, by rwa [String.append_empty], hx⟩
  case mp =>
    rintro ⟨us, t, vs, s', e, ht, hn, hx⟩
    cases us
    case nil =>
      cases e
      cases ht
      rw [String.append_empty] at hn
      exact ⟨s', hn, hx⟩
    case cons =>
      cases e
      cases ht

theorem insideField_text_iff :
    InsideField note next k text s (.text t :: ts) ↔
      InsideField note next k (text ++ t) s ts := by
  constructor
  case mpr =>
    rintro ⟨us, u, vs, s', rfl, ht, hn, hx⟩
    exact ⟨.text t :: us, t ++ u, vs, s', rfl, .cons ht, by rwa [← String.append_assoc], hx⟩
  case mp =>
    rintro ⟨us, u, vs, s', e, ht, hn, hx⟩
    cases us
    case nil  => cases e
    case cons =>
      cases e
      cases ht
      case cons ht => exact ⟨_, _, vs, s', rfl, ht, by rwa [String.append_assoc], hx⟩

theorem not_insideField_opening : ¬InsideField note next k text s (.opening tag :: ts) := by
  rintro ⟨us, u, vs, s', e, ht, _⟩
  cases us
  case nil  => cases e
  case cons =>
    cases e
    cases ht

-- A field may begin where its name is known.
theorem upto_isField_iff :
    Upto (IsField name tag) note next s ts ↔
      ∃ k, name k = tag ∧ InsideField note next k "" s ts := by
  constructor
  case mp =>
    rintro ⟨us, ⟨k, t⟩, vs, s', e, ⟨hk, ht⟩, hm, hx⟩
    exact ⟨k, hk, us, t, vs, s', e, ht, by rwa [String.empty_append], hx⟩
  case mpr =>
    rintro ⟨k, hk, us, t, vs, s', e, ht, hm, hx⟩
    exact ⟨us, (k, t), vs, s', e, ⟨hk, ht⟩, by rwa [String.empty_append] at hm, hx⟩

end ReportExchange.Grammar
