import ReportExchange.Proofs.Lookup
import ReportExchange.Report.Walk

namespace ReportExchange.Fields

theorem get?_eq_none_iff {fields : Fields} {tag : String} :
    fields.get? tag = none ↔ tag ∉ fields.map (·.1) := by
  rw [get?, Option.map_eq_none_iff, List.find?_eq_none, List.mem_map]
  constructor
  case mp =>
    rintro h ⟨f, hf, e⟩
    exact h f hf (decide_eq_true e)
  case mpr => exact fun h f hf e => h ⟨f, hf, of_decide_eq_true e⟩

theorem get?_of_mem {fields : Fields} {f : String × String} (hn : (fields.map (·.1)).Nodup)
    (hf : f ∈ fields) : fields.get? f.1 = some f.2 := by
  rw [get?, find?_key_eq_some hn hf]
  rfl

theorem nodup_extend {inherited own : Fields} (hi : (inherited.map (·.1)).Nodup)
    (ho : (own.map (·.1)).Nodup) : ((inherited.extend own).map (·.1)).Nodup := by
  rw [extend, List.map_append, List.nodup_append]
  refine ⟨hi.sublist (List.filter_sublist.map _), ho, fun x hx y hy e => ?_⟩
  obtain ⟨f, hf, hfx⟩ := List.mem_map.mp hx
  obtain ⟨g, hg, hgy⟩ := List.mem_map.mp hy
  have hn := (List.mem_filter.mp hf).2
  have ha : own.any (·.1 = f.1) :=
    List.any_eq_true.mpr ⟨g, hg, decide_eq_true (hgy.trans (e.symm.trans hfx.symm))⟩
  simp [ha] at hn

end ReportExchange.Fields
