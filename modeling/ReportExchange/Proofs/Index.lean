import ReportExchange.Index

namespace ReportExchange.Index

variable {α : Type} {key : String} {value : α} {x : String × α} {es : List (String × α)}

def Ascending (es : List (String × α)) : Prop :=
  es.Pairwise fun e f => e.1 < f.1

theorem mem_insert (h : x ∈ insert key value es) : x = (key, value) ∨ x ∈ es := by
  induction es
  case nil => exact .inl (List.mem_singleton.mp h)
  case cons e es hi =>
    rw [insert] at h
    split at h
    case isTrue  => exact List.mem_cons.mp h
    case isFalse =>
      split at h
      case isTrue  => exact (List.mem_cons.mp h).imp_right (List.mem_cons_of_mem _)
      case isFalse =>
        obtain rfl | h := List.mem_cons.mp h
        case inl => exact .inr List.mem_cons_self
        case inr => exact (hi h).imp_right (List.mem_cons_of_mem _)

theorem Ascending.insert (h : Ascending es) : Ascending (insert key value es) := by
  induction es
  case nil => exact List.pairwise_singleton _ _
  case cons e es hi =>
    obtain ⟨he, hs⟩ := List.pairwise_cons.mp h
    rw [Index.insert]
    split
    case isTrue hlt =>
      refine .cons (fun f hf => ?_) h
      obtain rfl | hf := List.mem_cons.mp hf
      case inl => exact hlt
      case inr => exact String.lt_trans hlt (he f hf)
    case isFalse hlt =>
      split
      case isTrue hk  => exact .cons (fun f hf => hk ▸ he f hf) hs
      case isFalse hk =>
        refine .cons (fun f hf => ?_) (hi hs)
        obtain rfl | hf := mem_insert hf
        case inl => exact Std.lt_of_le_of_ne (String.not_lt.mp hlt) (Ne.symm hk)
        case inr => exact he f hf

theorem ascending_foldl {entries : List (String × α)} (h : Ascending es) :
    Ascending (entries.foldl (fun es e => insert e.1 e.2 es) es) := by
  induction entries generalizing es
  case nil            => exact h
  case cons e _ hi => exact hi h.insert

theorem ascending_ofList (entries : List (String × α)) : Ascending (ofList entries) :=
  ascending_foldl .nil

theorem mem_of_mem_foldl {entries : List (String × α)}
    (h : x ∈ entries.foldl (fun es e => insert e.1 e.2 es) es) : x ∈ es ∨ x ∈ entries := by
  induction entries generalizing es
  case nil => exact .inl h
  case cons e entries hi =>
    obtain h | h := hi h
    case inr => exact .inr (List.mem_cons_of_mem _ h)
    case inl =>
    obtain rfl | h := mem_insert h
    case inl => exact .inr List.mem_cons_self
    case inr => exact .inl h

theorem mem_of_mem_ofList {entries : List (String × α)} (h : x ∈ ofList entries) : x ∈ entries := by
  obtain h | h := mem_of_mem_foldl h
  case inl => cases h
  case inr => exact h

theorem Ascending.nodup (h : Ascending es) : (es.map (·.1)).Nodup := by
  refine List.pairwise_map.mpr (h.imp fun {e f} hlt he => ?_)
  rw [he] at hlt
  exact String.lt_irrefl _ hlt

theorem find?_eq_none (h : key ∉ es.map (·.1)) : find? key es = none := by
  rw [find?, Option.map_eq_none_iff, List.find?_eq_none]
  exact fun e he hk => h (of_decide_eq_true hk ▸ List.mem_map_of_mem he)

theorem mem_of_find? (h : find? key es = some value) : (key, value) ∈ es := by
  obtain ⟨e, he, rfl⟩ := Option.map_eq_some_iff.mp h
  have hk := List.find?_some he
  exact of_decide_eq_true hk ▸ List.mem_of_find?_eq_some he

theorem isSome_find?_iff : (find? key es).isSome ↔ key ∈ es.map (·.1) := by
  simp [find?, List.find?_isSome]

theorem isSome_find?_foldl {entries : List (String × α)} :
    (find? key (entries.foldl (fun es e => insert e.1 e.2 es) es)).isSome ↔
      (find? key es).isSome ∨ key ∈ entries.map (·.1) := by
  induction entries generalizing es
  case nil => simp
  case cons e entries hi =>
    rw [List.foldl_cons, hi, find?_insert, List.map_cons, List.mem_cons]
    split
    case isTrue h  => simp [h]
    case isFalse h => simp [Ne.symm h]

theorem mem_keys_ofList {entries : List (String × α)} :
    key ∈ (ofList entries).map (·.1) ↔ key ∈ entries.map (·.1) := by
  rw [← isSome_find?_iff, ofList, isSome_find?_foldl]
  simp [find?]

-- Entries that list the values of a function are found as it says.
theorem find?_ofList {f : String → Option α} {entries : List (String × α)}
    (hf : ∀ e ∈ entries, f e.1 = some e.2) (hk : ∀ key, (f key).isSome → key ∈ entries.map (·.1))
    (key : String) : find? key (ofList entries) = f key := by
  cases h : find? key (ofList entries)
  case some value => exact (hf _ (mem_of_mem_ofList (mem_of_find? h))).symm
  case none =>
    refine (Option.not_isSome_iff_eq_none.mp fun hs => ?_).symm
    rw [← Option.not_isSome_iff_eq_none, isSome_find?_iff, mem_keys_ofList] at h
    exact h (hk key hs)

theorem insert_of_forall_lt (h : ∀ e ∈ es, e.1 < key) :
    insert key value es = es ++ [(key, value)] := by
  induction es
  case nil => rfl
  case cons e es hi =>
    obtain ⟨he, hs⟩ := List.forall_mem_cons.mp h
    have hlt : ¬ key < e.1 := fun hk => String.lt_irrefl _ (String.lt_trans he hk)
    have hne : key ≠ e.1 := fun hk => String.lt_irrefl e.1 (hk ▸ he)
    rw [insert, if_neg hlt, if_neg hne, hi hs, List.cons_append]

theorem foldl_of_ascending {entries : List (String × α)} (h : Ascending (es ++ entries)) :
    entries.foldl (fun es e => insert e.1 e.2 es) es = es ++ entries := by
  induction entries generalizing es
  case nil => rw [List.foldl_nil, List.append_nil]
  case cons e entries hi =>
    have hlt : ∀ x ∈ es, x.1 < e.1 :=
      fun x hx => (List.pairwise_append.mp h).2.2 x hx e List.mem_cons_self
    rw [List.foldl_cons, insert_of_forall_lt hlt, hi (by simpa using h), List.append_assoc,
      List.singleton_append]

theorem ofList_of_ascending (h : Ascending es) : ofList es = es :=
  foldl_of_ascending h

end ReportExchange.Index
