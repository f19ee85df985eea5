import ReportExchange.Xml.Escape

namespace ReportExchange.Xml

-- The five entities are read back as the characters that they are written for.
theorem unescapeFrom_escapeChar (total offset : Nat) (c : Char) (cs : List Char) :
    ∃ offset', unescapeFrom total offset none (escapeChar c ++ cs) =
      (unescapeFrom total offset' none cs).map (c :: ·) := by
  fun_cases escapeChar c
  case case6 h _ _ =>
    refine ⟨offset + c.utf8Size, ?_⟩
    rw [List.singleton_append, unescapeFrom, if_neg h]
  all_goals exact ⟨_, rfl⟩

theorem unescapeFrom_escape (total offset : Nat) (cs : List Char) :
    unescapeFrom total offset none (cs.flatMap escapeChar) = .ok cs := by
  induction cs generalizing offset
  case nil => rfl
  case cons c cs hi =>
    have ⟨offset', h⟩ := unescapeFrom_escapeChar total offset c (cs.flatMap escapeChar)
    rw [List.flatMap_cons, h, hi]
    rfl

theorem unescape_escape (s : String) : unescape (escape s) = .ok s := by
  rw [unescape, escape, String.toList_ofList, unescapeFrom_escape, Except.map, String.ofList_toList]

theorem lessThan_not_mem_escapeChar (c : Char) : '<' ∉ escapeChar c := by
  fun_cases escapeChar c
  case case6 h _ _ _ _ => exact fun hm => h (List.mem_singleton.mp hm).symm
  all_goals decide

theorem lessThan_not_mem_escape (s : String) : '<' ∉ (escape s).toList := by
  rw [escape, String.toList_ofList, List.mem_flatMap]
  exact fun ⟨c, _, h⟩ => lessThan_not_mem_escapeChar c h

theorem escapeChar_ne_nil (c : Char) : escapeChar c ≠ [] := by
  fun_cases escapeChar c <;> exact List.cons_ne_nil _ _

theorem escape_eq_empty_iff {s : String} : escape s = "" ↔ s = "" := by
  rw [escape, ← String.toList_eq_nil_iff, String.toList_ofList, List.flatMap_eq_nil_iff,
    ← String.toList_eq_nil_iff]
  constructor
  case mpr => intro h c hc; rw [h] at hc; cases hc
  case mp  =>
    intro h
    exact List.eq_nil_iff_forall_not_mem.mpr fun c hc => escapeChar_ne_nil c (h c hc)

end ReportExchange.Xml
