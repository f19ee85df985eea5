import Mathlib.Data.List.DropRight
import ReportExchange.Text.Blank
import ReportExchange.Text.Split

namespace ReportExchange.Text

variable {sep : Char} {cs p q : List Char}

theorem dropBlankEnd_eq (cs : List Char) : dropBlankEnd cs = cs.rdropWhile isBlank :=
  rfl

-- The blanks in front go first, so the text does not begin with one, and what is dropped at its end
-- does not change how it begins.
theorem trimmed_trimmed (cs : List Char) : trimmed (trimmed cs) = trimmed cs := by
  have hf : (trimmed cs).dropWhile isBlank = trimmed cs := by
    have hp : trimmed cs <+: cs.dropWhile isBlank := List.rdropWhile_prefix ..
    have hb := List.head?_dropWhile_not isBlank cs
    cases ht : trimmed cs
    case nil      => rfl
    case cons c l =>
      rw [ht] at hp
      have ⟨more, he⟩ := hp
      rw [← he] at hb
      exact List.dropWhile_cons_of_neg (Bool.not_eq_true _ ▸ hb)
  rw [trimmed, hf, trimmed, dropBlankEnd_eq, dropBlankEnd_eq, List.rdropWhile_idempotent]

theorem trim_trim (s : String) : trim (trim s) = trim s := by
  rw [trim, trim, String.toList_ofList, trimmed_trimmed]

-- The separators and the pieces between them are the whole text.
theorem intercalate_pieces (sep : Char) (cs : List Char) :
    [sep].intercalate (pieces sep cs) = cs := by
  induction cs
  case nil => rfl
  case cons c cs hi =>
    have ⟨p, ps, hp⟩ := List.exists_cons_of_ne_nil (pieces_ne_nil sep cs)
    rw [hp] at hi
    rw [pieces]
    split
    case isTrue hc => rw [hp, List.intercalate_cons_cons, hi, hc]; rfl
    case isFalse   =>
      rw [hp]
      cases ps <;> simp_all [List.intercalate_cons_cons]

theorem pieces_of_not_mem (h : sep ∉ cs) : pieces sep cs = [cs] := by
  induction cs
  case nil => rfl
  case cons c cs hi =>
    have ⟨hc, hcs⟩ := List.ne_and_not_mem_of_not_mem_cons h
    rw [pieces, if_neg hc.symm, hi hcs]

theorem pieces_append (h : sep ∉ p) : pieces sep (p ++ sep :: cs) = p :: pieces sep cs := by
  induction p
  case nil => rw [List.nil_append, pieces, if_pos rfl]
  case cons c p hi =>
    obtain ⟨hc, hp⟩ := List.ne_and_not_mem_of_not_mem_cons h
    rw [List.cons_append, pieces, if_neg hc.symm, hi hp]

-- A text with one separator is cut in two.
theorem pieces_eq_pair_iff : pieces sep cs = [p, q] ↔ cs = p ++ sep :: q ∧ sep ∉ p ∧ sep ∉ q := by
  constructor
  case mp =>
    intro h
    have hj := intercalate_pieces sep cs
    rw [h] at hj
    have hp : p ∈ pieces sep cs := by simp [h]
    have hq : q ∈ pieces sep cs := by simp [h]
    exact ⟨by simpa using hj.symm, not_mem_of_mem_pieces hp, not_mem_of_mem_pieces hq⟩
  case mpr =>
    rintro ⟨rfl, hp, hq⟩
    rw [pieces_append hp, pieces_of_not_mem hq]

end ReportExchange.Text
