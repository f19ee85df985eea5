import ReportExchange.Envelope.Field
import ReportExchange.Proofs.Lookup

namespace ReportExchange

theorem HeaderField.ofTag?_eq_some_iff {tag : String} {field : HeaderField} :
    ofTag? tag = some field ↔ field.tag = tag := by
  have hn : (HeaderField.all.map HeaderField.tag).Nodup := by decide
  rw [ofTag?, find?_key_eq_some_iff hn]
  cases field <;> simp [HeaderField.all]

theorem HeaderField.read_eq_ok_iff {tag : String} {field : HeaderField} :
    read tag = .ok field ↔ field.tag = tag := by
  rw [← ofTag?_eq_some_iff, read]
  cases ofTag? tag <;> simp

theorem OperationField.ofTag?_eq_some_iff {tag : String} {field : OperationField} :
    ofTag? tag = some field ↔ field.tag = tag := by
  have hn : (OperationField.all.map OperationField.tag).Nodup := by decide
  rw [ofTag?, find?_key_eq_some_iff hn]
  cases field <;> simp [OperationField.all]

theorem OperationField.read_eq_ok_iff {tag : String} {field : OperationField} :
    read tag = .ok field ↔ field.tag = tag := by
  rw [← ofTag?_eq_some_iff, read]
  cases ofTag? tag <;> simp

-- The fields that are known after some have been read. The last reading of a field counts.
def recorded {κ : Type} [DecidableEq κ] (known : κ → Option String) (fields : List (κ × String)) :
    κ → Option String :=
  fields.foldl (fun known f k => if k = f.1 then some f.2 else known k) known

theorem recorded_append {κ : Type} [DecidableEq κ] (known : κ → Option String)
    (fields more : List (κ × String)) :
    recorded known (fields ++ more) = recorded (recorded known fields) more :=
  List.foldl_append

theorem recorded_eq {κ : Type} [DecidableEq κ] {known : κ → Option String}
    {fields : List (κ × String)} (hn : (fields.map (·.1)).Nodup) (k : κ) :
    recorded known fields k = ((fields.find? (·.1 = k)).map (·.2)).or (known k) := by
  rw [recorded]
  induction fields generalizing known
  case nil => rfl
  case cons f fields hi =>
    have ⟨hm, hn⟩ := List.nodup_cons.mp hn
    rw [List.foldl_cons, hi hn]
    by_cases hk : f.1 = k
    case neg => rw [List.find?_cons_of_neg (by simpa using hk), if_neg (Ne.symm hk)]
    case pos =>
      have hf : fields.find? (·.1 = k) = none :=
        List.find?_eq_none.mpr fun g hg e =>
          hm (List.mem_map.mpr ⟨g, hg, (of_decide_eq_true e).trans hk.symm⟩)
      rw [List.find?_cons_of_pos (by simpa using hk), hf, if_pos hk.symm]
      rfl

theorem recorded_eq_some_iff {κ : Type} [DecidableEq κ] {fields : List (κ × String)}
    (hn : (fields.map (·.1)).Nodup) {k : κ} {v : String} :
    recorded (fun _ => none) fields k = some v ↔ (k, v) ∈ fields := by
  rw [recorded_eq hn, Option.or_none, Option.map_eq_some_iff]
  constructor
  case mp =>
    rintro ⟨⟨k', v'⟩, hf, rfl⟩
    have ⟨hm, hk⟩ := (find?_key_eq_some_iff hn).mp hf
    exact hk ▸ hm
  case mpr => exact fun hm => ⟨(k, v), find?_key_eq_some hn hm, rfl⟩

end ReportExchange
