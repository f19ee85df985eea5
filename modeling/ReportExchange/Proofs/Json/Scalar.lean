import ReportExchange.Json.Printer
import ReportExchange.Json.Reader
import ReportExchange.Proofs.Text.Numeral

namespace ReportExchange.Json

variable {c : Char} {cs ds rest : List Char} {fuel : Nat}

def isSpace (c : Char) : Bool :=
  c == ' ' || c == '\t' || c == '\n' || c == '\r'

theorem skipSpace_append {ws : List Char} (h : ∀ c ∈ ws, isSpace c) (cs : List Char) :
    skipSpace (ws ++ cs) = skipSpace cs := by
  induction ws
  case nil => rfl
  case cons w ws hi =>
    obtain ⟨hw, hws⟩ := List.forall_mem_cons.mp h
    rw [List.cons_append, skipSpace, if_pos (by simpa [isSpace, or_assoc] using hw), hi hws]

theorem skipSpace_cons (h : ¬ isSpace c) : skipSpace (c :: cs) = c :: cs := by
  rw [skipSpace, if_neg (by simpa [isSpace, not_or, and_assoc] using h)]

section Strings

theorem hex4_hexDigit : ∀ n < 0x20,
    hex4 '0' '0' (hexDigit (n / 16)) (hexDigit (n % 16)) = some n := by
  decide

theorem stringRest_cons (hq : c ≠ '\x22') (hb : c ≠ '\\') (hc : ¬ c.toNat < 0x20)
    (read : List Nat) (cs : List Char) :
    stringRest read (c :: cs) = stringRest (c.toNat :: read) cs := by
  rw [stringRest.eq_def]
  split
  case h_5 e =>
    cases e
    rw [if_neg hc]
  all_goals simp_all

-- An escaped character is read as its one unit.
theorem stringRest_escape (read : List Nat) (c : Char) (cs : List Char) :
    stringRest read (escape c ++ cs) = stringRest (c.toNat :: read) cs := by
  rw [escape.eq_def]
  split
  case h_8 hq hb _ _ _ _ _ =>
    split
    case isTrue hc =>
      simp only [List.cons_append, List.nil_append]
      rw [stringRest, hex4_hexDigit _ hc]
    case isFalse hc => exact stringRest_cons hq hb hc read cs
  all_goals rfl

theorem stringRest_escaped (read : List Nat) (cs rest : List Char) :
    stringRest read (cs.flatMap escape ++ '\x22' :: rest) =
      some (read.reverse ++ cs.map Char.toNat, rest) := by
  induction cs generalizing read
  case nil => simp [stringRest]
  case cons c cs hi =>
    rw [List.flatMap_cons, List.append_assoc, stringRest_escape, hi]
    simp

theorem toList_quote (s : String) :
    (quote s).toList = '\x22' :: (s.toList.flatMap escape ++ ['\x22']) := by
  simp [quote]

-- What follows the opening quote of a text that has been written.
theorem stringRest_quote (s : String) (rest : List Char) :
    stringRest [] (s.toList.flatMap escape ++ '\x22' :: rest) =
      some (s.toList.map Char.toNat, rest) :=
  stringRest_escaped [] s.toList rest

theorem textOf_units (s : String) : textOf (s.toList.map Char.toNat) = .text s := by
  rw [textOf, Text.ofUnits?_map_toNat]

end Strings

section Numbers

-- What comes after a number is no part of it.
def Stops (rest : List Char) : Prop :=
  ∀ c ∈ rest.head?, ¬ isDigit c ∧ c ≠ '.' ∧ c ≠ 'e' ∧ c ≠ 'E'

-- A whole number without leading zeros, with a sign if it is negative.
def IsNumeral (literal : String) : Prop :=
  ∃ cs, Text.Plain cs ∧ (literal.toList = cs ∨ literal.toList = '-' :: cs)

theorem isNumeral_toString (n : Int) : IsNumeral (toString n) := by
  have hp (n : Nat) : Text.Plain (Nat.toDigits 10 n) := Text.plain_toDigits n
  have ht : (toString n : String) = n.repr := rfl
  rw [ht, Int.repr_eq_if]
  split
  case isTrue  => exact ⟨_, hp n.toNat, .inl (by simp [Nat.repr_eq_ofList_toDigits])⟩
  case isFalse => exact ⟨_, hp (-n).toNat, .inr (by simp [Nat.repr_eq_ofList_toDigits])⟩

theorem isDigit_eq (c : Char) : isDigit c = c.isDigit := by
  simp [isDigit, Char.isDigit, Char.le_def]

theorem digits_append (hne : ds ≠ []) (hd : ∀ c ∈ ds, isDigit c) (hr : Stops rest) :
    digits (ds ++ rest) = some (ds, rest) := by
  have htake : rest.takeWhile isDigit = [] ∧ rest.dropWhile isDigit = rest := by
    cases rest
    case nil => exact ⟨rfl, rfl⟩
    case cons c rest =>
      have hc := (hr c rfl).1
      exact ⟨List.takeWhile_cons_of_neg hc, List.dropWhile_cons_of_neg hc⟩
  rw [digits, List.takeWhile_append_of_pos hd, List.dropWhile_append_of_pos hd, htake.1, htake.2,
    List.append_nil]
  simp [hne]

theorem fraction_of_stops (hr : Stops rest) : fraction rest = some ([], rest) := by
  cases rest
  case nil => rfl
  case cons c rest =>
    rw [fraction]
    exact fun _ e => (hr c rfl).2.1 (List.cons.inj e).1

theorem exponent_of_stops (hr : Stops rest) : exponent rest = some ([], rest) := by
  match rest with
  | []     => rfl
  | [c]    =>
    have hc := (hr c rfl).2.2
    rw [exponent, if_neg (by tauto)]
  | c :: d :: rest =>
    have hc := (hr c rfl).2.2
    rw [exponent, if_neg (by tauto)]

-- The digits of a plain numeral are read as a whole.
theorem number_append (hp : Text.Plain cs) {sign : List Char} (hs : sign = [] ∨ sign = ['-'])
    (hr : Stops rest) :
    number (sign ++ cs ++ rest) = some (.number (String.ofList (sign ++ cs)), rest) := by
  obtain ⟨hne, hd, hz⟩ := hp
  cases cs
  case nil => exact absurd rfl hne
  case cons c cs =>
    have hm : c ≠ '-' := by
      rintro rfl
      simp at hd
    have hdigits : digits (c :: (cs ++ rest)) = some (c :: cs, rest) :=
      digits_append hne (fun c hc => isDigit_eq c ▸ List.all_eq_true.mp hd c hc) hr
    have hrest : (rest.head?.map isDigit).getD false = false := by
      cases rest
      case nil         => rfl
      case cons r rest => simpa using (hr r rfl).1
    have hf := fraction_of_stops hr
    have he := exponent_of_stops hr
    by_cases h0 : c = '0'
    case pos =>
      subst h0
      cases hz rfl
      obtain rfl | rfl := hs
      · simp [number, hrest, hf, he]
      · simp [number, hrest, hf, he]
    case neg =>
      obtain rfl | rfl := hs
      · simp [number, hm, h0, hdigits, hf, he]
      · simp [number, h0, hdigits, hf, he]

variable {literal : String} (h : IsNumeral literal)

include h

theorem IsNumeral.eq_cons : ∃ c cs, literal.toList = c :: cs ∧ (c = '-' ∨ isDigit c) := by
  obtain ⟨ds, ⟨hne, hd, -⟩, hl | hl⟩ := h
  case inr => exact ⟨'-', ds, hl, .inl rfl⟩
  case inl =>
    cases ds
    case nil       => exact absurd rfl hne
    case cons d ds => exact ⟨d, ds, hl, .inr (isDigit_eq d ▸ List.all_eq_true.mp hd d (by simp))⟩

theorem IsNumeral.number (hr : Stops rest) :
    number (literal.toList ++ rest) = some (.number literal, rest) := by
  obtain ⟨ds, hp, hl | hl⟩ := h
  case inl => simpa [← hl] using number_append hp (.inl rfl) hr
  case inr => simpa [← hl] using number_append hp (.inr rfl) hr

end Numbers

end ReportExchange.Json
