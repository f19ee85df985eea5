import Mathlib.Data.List.Basic
import ReportExchange.Text.Blank
import ReportExchange.Text.Numeral

namespace ReportExchange.Text

variable {c : Char} {cs : List Char} {acc n limit maxPos maxNeg : Nat} {excess : NumeralFault}

-- Digits only, and no zero in front of others.
def Plain (cs : List Char) : Prop :=
  cs ≠ [] ∧ cs.all Char.isDigit ∧ (cs.head? = some '0' → cs = ['0'])

instance (cs : List Char) : Decidable (Plain cs) :=
  inferInstanceAs (Decidable (_ ∧ _ ∧ _))

theorem Plain.digits (h : Plain cs) : ∀ c ∈ cs, c.isDigit :=
  List.all_eq_true.mp h.2.1

theorem toNat_of_isDigit (h : c.isDigit) : 48 ≤ c.toNat ∧ c.toNat ≤ 57 :=
  Char.isDigit_iff_toNat.mp h

theorem toNat_zero : '0'.toNat = 48 :=
  rfl

theorem digitBelow_ten (h : c.isDigit) : digitBelow 10 c = some (c.toNat - '0'.toNat) := by
  have hn := toNat_of_isDigit h
  have hr : '0' ≤ c ∧ c ≤ '9' := by simpa [Char.isDigit, Char.le_def] using h
  have hd : c.toNat - '0'.toNat < 10 := by
    have := toNat_zero
    omega
  rw [digitBelow, digitValue, if_pos hr, Option.filter_some, if_pos (by simpa using hd)]

theorem not_isBlank (h : c.isDigit) : ¬ isBlank c := by
  have hn := toNat_of_isDigit h
  simp only [isBlank, Bool.or_eq_true, Bool.and_eq_true, decide_eq_true_eq, beq_iff_eq]
  omega

theorem trimmed_of_digits (h : ∀ c ∈ cs, c.isDigit) : trimmed cs = cs := by
  have hd {l : List Char} (h : ∀ c ∈ l, c.isDigit) : l.dropWhile isBlank = l := by
    cases l
    case nil      => rfl
    case cons c l => exact List.dropWhile_cons_of_neg (not_isBlank (h c List.mem_cons_self))
  rw [trimmed, hd h, dropBlankEnd, hd fun c hc => h c (List.mem_reverse.mp hc), List.reverse_reverse]

theorem le_ofDigitChars (acc : Nat) (cs : List Char) : acc ≤ Nat.ofDigitChars 10 cs acc := by
  induction cs generalizing acc
  case nil => exact Nat.le_refl _
  case cons c cs hi =>
    rw [Nat.ofDigitChars_cons]
    have := hi (10 * acc + (c.toNat - '0'.toNat))
    omega

-- As no digit makes a number smaller, only the whole of it has to be within the limit.
theorem readDigits_of_digits (h : ∀ c ∈ cs, c.isDigit) (ha : acc ≤ limit) :
    readDigits 10 limit excess acc cs =
      if Nat.ofDigitChars 10 cs acc ≤ limit then .ok (Nat.ofDigitChars 10 cs acc)
      else .error excess := by
  induction cs generalizing acc
  case nil => rw [readDigits, Nat.ofDigitChars_nil, if_pos ha]
  case cons c cs hi =>
    have ⟨hc, hcs⟩ := List.forall_mem_cons.mp h
    have hs : acc * 10 + (c.toNat - '0'.toNat) = 10 * acc + (c.toNat - '0'.toNat) := by omega
    simp only [readDigits, digitBelow_ten hc, hs, Nat.ofDigitChars_cons]
    split
    case isTrue hl =>
      have := le_ofDigitChars (10 * acc + (c.toNat - '0'.toNat)) cs
      rw [if_neg (by omega)]
    case isFalse hl => exact hi hcs (Nat.le_of_not_lt hl)

theorem readSigned_of_digits (hne : cs ≠ []) (h : ∀ c ∈ cs, c.isDigit) :
    readSigned maxPos maxNeg cs = (readDigits 10 maxPos .tooLarge 0 cs).map Int.ofNat := by
  cases cs
  case nil => exact absurd rfl hne
  case cons c cs =>
    have hc := h c List.mem_cons_self
    have hp : c ≠ '+' := by rintro rfl; cases hc
    have hm : c ≠ '-' := by rintro rfl; cases hc
    rw [readSigned] <;> simp [hp, hm]

theorem toDigits_of_digit (h : c.isDigit) : Nat.toDigits 10 (c.toNat - '0'.toNat) = [c] := by
  have hc := toNat_of_isDigit h
  have hz := toNat_zero
  have hd : c.toNat - '0'.toNat < 10 := by omega
  rw [Nat.toDigits_of_lt_base hd, List.cons.injEq]
  refine ⟨Char.toNat_inj.mp ?_, rfl⟩
  rw [Nat.toNat_digitChar_of_lt_ten hd]
  omega

theorem toDigits_ofDigitChars (h : ∀ c ∈ cs, c.isDigit) (hn : 0 < n) :
    Nat.toDigits 10 (Nat.ofDigitChars 10 cs n) = Nat.toDigits 10 n ++ cs := by
  induction cs generalizing n
  case nil => rw [Nat.ofDigitChars_nil, List.append_nil]
  case cons c cs hi =>
    have ⟨hc, hcs⟩ := List.forall_mem_cons.mp h
    have hr := toNat_of_isDigit hc
    have hz := toNat_zero
    rw [Nat.ofDigitChars_cons, hi hcs (by omega),
      ← Nat.toDigits_append_toDigits (by omega) hn (by omega), toDigits_of_digit hc,
      List.append_assoc]
    rfl

-- A plain numeral is how its number is written.
theorem toDigits_of_plain (h : Plain cs) : Nat.toDigits 10 (Nat.ofDigitChars 10 cs 0) = cs := by
  have hd := h.digits
  have hne := h.1
  have hz := h.2.2
  cases cs
  case nil => exact absurd rfl hne
  case cons c cs =>
    have ⟨hc, hcs⟩ := List.forall_mem_cons.mp hd
    by_cases h0 : c = '0'
    case pos =>
      cases hz (by rw [h0]; rfl)
      rfl
    case neg =>
      have hr := toNat_of_isDigit hc
      have hz := toNat_zero
      have hp : c.toNat ≠ 48 := fun e => h0 (Char.toNat_inj.mp e)
      rw [Nat.ofDigitChars_cons, Nat.mul_zero, Nat.zero_add,
        toDigits_ofDigitChars hcs (by omega), toDigits_of_digit hc]
      rfl

theorem head?_toDigits (hn : 0 < n) : (Nat.toDigits 10 n).head? ≠ some '0' := by
  induction n using Nat.strongRecOn
  case _ n hi =>
    rw [Nat.toDigits_eq_if (by omega)]
    split
    case isTrue  => simpa using Nat.ne_of_gt hn
    case isFalse =>
      rw [List.head?_append_of_ne_nil _ Nat.toDigits_ne_nil]
      exact hi (n / 10) (by omega) (by omega)

theorem plain_toDigits (n : Nat) : Plain (Nat.toDigits 10 n) := by
  have hd : ∀ c ∈ Nat.toDigits 10 n, c.isDigit :=
    fun c hc => Nat.isDigit_of_mem_toDigits (by omega) (by omega) hc
  refine ⟨Nat.toDigits_ne_nil, List.all_eq_true.mpr hd, fun hz => ?_⟩
  cases n
  case zero   => rfl
  case succ n => exact absurd hz (head?_toDigits n.succ_pos)

end ReportExchange.Text
