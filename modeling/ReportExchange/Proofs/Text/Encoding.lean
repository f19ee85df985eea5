import ReportExchange.Text.Utf8

namespace ReportExchange.Text

theorem bytes_eq (s : String) : bytes s = s.toList.flatMap String.utf8EncodeChar := by
  rw [bytes, String.toUTF8_eq_toByteArray, ← String.utf8Encode_toList, List.utf8Encode,
    List.toList_data_toByteArray]

theorem bytes_append (s t : String) : bytes (s ++ t) = bytes s ++ bytes t := by
  rw [bytes_eq, bytes_eq, bytes_eq, String.toList_append, List.flatMap_append]

theorem bytes_eq_nil_iff {s : String} : bytes s = [] ↔ s = "" := by
  rw [bytes_eq, List.flatMap_eq_nil_iff]
  constructor
  case mpr => rintro rfl c ⟨⟩
  case mp  =>
    intro h
    refine String.toList_eq_nil_iff.mp (List.eq_nil_iff_forall_not_mem.mpr fun c hc => ?_)
    exact String.utf8EncodeChar_ne_nil (h c hc)

theorem decode_bytes (s : String) : decode (bytes s) = .ok s := by
  have h : (⟨(bytes s).toArray⟩ : ByteArray) = s.toByteArray := rfl
  rw [decode, h, String.fromUTF8?, dif_pos s.isValidUTF8]
  rfl

-- What can be decoded are the bytes of the text that it gives.
theorem decode_eq_ok_iff {bs : List UInt8} {s : String} : decode bs = .ok s ↔ bs = bytes s := by
  constructor
  case mpr => rintro rfl; exact decode_bytes s
  case mp =>
    intro h
    rw [decode, String.fromUTF8?] at h
    split at h
    case h_2 => cases h
    case h_1 he =>
      cases h
      split at he <;> cases he
      rfl

theorem toNat_of_mem_utf8EncodeChar {c : Char} {b : UInt8} (h : b ∈ String.utf8EncodeChar c)
    (hb : b < 0x80) : c.toNat = b.toNat := by
  have hb : b.toNat < 128 := hb
  -- The bytes of a longer sequence all have their highest bit set.
  have high {n : Nat} (hn : 128 ≤ n ∧ n < 256) (e : b = .ofNat n) : c.toNat = b.toNat := by
    rw [e, UInt8.toNat_ofNat'] at hb
    omega
  revert h
  fun_cases String.utf8EncodeChar c
  all_goals
    intro h
    simp only [List.mem_cons, List.not_mem_nil, or_false] at h
  case case1 v hv =>
    have hv' : v = c.toNat := rfl
    rw [h, UInt8.toNat_ofNat']
    omega
  case case2 => rcases h with h | h <;> exact high (by omega) h
  case case3 => rcases h with h | h | h <;> exact high (by omega) h
  case case4 => rcases h with h | h | h | h <;> exact high (by omega) h

theorem mem_of_mem_bytes {s : String} {b : UInt8} (h : b ∈ bytes s) (hb : b < 0x80) :
    ∃ c ∈ s.toList, c.toNat = b.toNat := by
  rw [bytes_eq] at h
  have ⟨c, hc, h⟩ := List.mem_flatMap.mp h
  exact ⟨c, hc, toNat_of_mem_utf8EncodeChar h hb⟩

end ReportExchange.Text
