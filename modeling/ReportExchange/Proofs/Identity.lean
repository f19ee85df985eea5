import ReportExchange.Identity
import ReportExchange.Proofs.Text.Numeral

namespace ReportExchange.RowId

open Text

variable {id other : RowId} {source : String}

theorem toInt_inj : id.val.toInt = other.val.toInt ↔ id = other := by
  obtain ⟨n⟩ := id
  obtain ⟨m⟩ := other
  rw [Int64.toInt_inj, mk.injEq]

theorem toInt_nonneg (h : id.isSet) : 0 ≤ id.val.toInt := by
  simpa [isSet, Int64.le_iff_toInt_le] using h

theorem toList_text (h : id.isSet) : id.text.toList = Nat.toDigits 10 id.val.toInt.toNat := by
  have ht : id.text = id.val.toInt.repr := rfl
  rw [ht, Int.repr_eq_if, if_pos (toInt_nonneg h), Nat.repr_eq_ofList_toDigits, String.toList_ofList]

theorem plain_text (h : id.isSet) : Plain id.text.toList := by
  rw [toList_text h]
  exact plain_toDigits _

theorem read?_eq_some_iff :
    read? source = some id ↔ readInt64 (trimmed source.toList) = .ok id.val := by
  obtain ⟨n⟩ := id
  rw [read?, read]
  cases readInt64 (trimmed source.toList) <;> simp [Except.toOption]

theorem readInt64_eq_ok_iff {cs : List Char} (hp : Plain cs) (h : id.isSet) :
    readInt64 cs = .ok id.val ↔ Nat.ofDigitChars 10 cs 0 = id.val.toInt.toNat := by
  have h0 := toInt_nonneg h
  have hb := Int64.toInt_lt id.val
  have hl : Nat.pow 2 63 = 9223372036854775808 := rfl
  rw [readInt64, readSigned_of_digits hp.1 hp.digits, readDigits_of_digits hp.digits (Nat.zero_le _)]
  generalize Nat.ofDigitChars 10 cs 0 = n
  split
  case isFalse hn =>
    simp only [Except.map, reduceCtorEq, false_iff]
    omega
  case isTrue hn =>
    have hi := Int64.toInt_ofInt_of_le (n := Int.ofNat n) (by simp) (by simp; omega)
    simp only [Except.map, Except.ok.injEq]
    constructor
    case mp =>
      intro e
      rw [← e, hi]
      rfl
    case mpr =>
      intro e
      rw [e, Int.ofNat_eq_natCast, Int.toNat_of_nonneg h0, Int64.ofInt_toInt]

-- Of the texts that read as an identity, blanks around them aside, only the plain one is written.
theorem trim_eq_text_iff (h : id.isSet) :
    trim source = id.text ↔ read? source = some id ∧ Plain (trimmed source.toList) := by
  have ht : trim source = id.text ↔ trimmed source.toList = id.text.toList := by
    rw [trim, ← String.toList_inj, String.toList_ofList]
  rw [ht, read?_eq_some_iff]
  constructor
  case mp =>
    intro e
    have hp := plain_text h
    rw [e]
    refine ⟨(readInt64_eq_ok_iff hp h).mpr ?_, hp⟩
    rw [toList_text h, Nat.ofDigitChars_ten_toDigits]
  case mpr =>
    rintro ⟨hr, hp⟩
    rw [toList_text h, ← (readInt64_eq_ok_iff hp h).mp hr, toDigits_of_plain hp]

theorem trim_text (h : id.isSet) : trim id.text = id.text := by
  rw [trim, trimmed_of_digits (plain_text h).digits, String.ofList_toList]

-- No two identities are written alike, those that are not set included.
theorem text_injective (h : id.text = other.text) : id = other := by
  have digits {n m : Nat} (h : n.repr = m.repr) : n = m := by
    have hd : Nat.toDigits 10 n = Nat.toDigits 10 m := by
      rw [← Nat.toList_repr, h, Nat.toList_repr]
    calc n
      _ = Nat.ofDigitChars 10 (Nat.toDigits 10 n) 0 := Nat.ofDigitChars_ten_toDigits.symm
      _ = Nat.ofDigitChars 10 (Nat.toDigits 10 m) 0 := by rw [hd]
      _ = m                                         := Nat.ofDigitChars_ten_toDigits
  have sign (n m : Nat) : n.repr ≠ "-" ++ m.repr := by
    intro e
    have hm : '-' ∈ Nat.toDigits 10 n := by
      rw [← Nat.toList_repr, e]
      simp
    exact absurd ((plain_toDigits n).digits _ hm) (by decide)
  have ht (id : RowId) : id.text = id.val.toInt.repr := rfl
  rw [ht, ht, Int.repr_eq_if, Int.repr_eq_if] at h
  rw [← toInt_inj]
  split at h <;> split at h
  case isTrue.isTrue   =>
    have := digits h
    omega
  case isTrue.isFalse  => exact absurd h (sign _ _)
  case isFalse.isTrue  => exact absurd h.symm (sign _ _)
  case isFalse.isFalse =>
    have := digits ((String.append_right_inj _).mp h)
    omega

theorem read?_text (h : id.isSet) : read? id.text = some id :=
  ((trim_eq_text_iff h).mp (trim_text h)).1

end ReportExchange.RowId
