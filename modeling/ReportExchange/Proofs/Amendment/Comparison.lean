import ReportExchange.Amendment.Comparison
import ReportExchange.Proofs.Intake.Contents
import ReportExchange.Proofs.Report.Fields

namespace ReportExchange

open Text

namespace Comparison

variable {c d : Comparison} {tag text : String} {fields : Fields}

def fragmentsOf (fields : Fields) : List Fragment :=
  fields.map fun f => ⟨f.1, f.2⟩

-- The identity that the fragments of a row state. If they do so several times, the last one counts.
def statedId (c : Comparison) : Option String :=
  ((c.fragments.filter (·.tag = Tag.rowId)).getLast?).map (trim ·.text)

-- A row has the identity that its fragments state, unless that is blank.
def Consistent (c : Comparison) : Prop :=
  c.rowId = c.statedId.filter (· ≠ "")

-- A field says something about its own part of the row only.
theorem of_note (h : c.note tag text = .ok d) :
    d.fragments = c.fragments ∧
      d.rowId = (if tag = Tag.rowId then (some (trim text)).filter (· ≠ "") else c.rowId) ∧
      (tag ≠ Tag.nullified → d.nullified = c.nullified) := by
  rw [note] at h
  split at h
  case isTrue ht =>
    cases h
    rw [if_pos ht]
    refine ⟨rfl, ?_, fun _ => rfl⟩
    by_cases hb : trim text = "" <;> simp [hb, Option.filter_some]
  case isFalse ht =>
  rw [if_neg ht]
  split at h
  case isTrue hn =>
    obtain ⟨_, _, rfl⟩ := map_eq_ok.mp h
    exact ⟨rfl, rfl, fun hne => absurd hn hne⟩
  case isFalse =>
  split at h
  case isTrue  => split at h <;> cases h; exact ⟨rfl, rfl, fun _ => rfl⟩
  case isFalse => split at h <;> cases h <;> exact ⟨rfl, rfl, fun _ => rfl⟩

theorem statedId_append (h : d.fragments = c.fragments ++ [⟨tag, text⟩]) :
    d.statedId = if tag = Tag.rowId then some (trim text) else c.statedId := by
  by_cases ht : tag = Tag.rowId <;> simp [statedId, h, ht]

theorem of_addField (h : c.addField tag text = .ok d) :
    d.fragments = c.fragments ++ [⟨tag, text⟩] ∧ (c.Consistent → d.Consistent) := by
  obtain ⟨e, hn, rfl⟩ := map_eq_ok.mp h
  obtain ⟨hf, hid, _⟩ := of_note hn
  have hf : e.fragments ++ [⟨tag, text⟩] = c.fragments ++ [⟨tag, text⟩] := by rw [hf]
  refine ⟨hf, fun hc => ?_⟩
  rw [Consistent, statedId_append hf]
  refine hid.trans ?_
  by_cases ht : tag = Tag.rowId
  case pos => rw [if_pos ht, if_pos ht]
  case neg => rw [if_neg ht, if_neg ht, hc]

theorem of_foldlM_addField
    (h : fields.foldlM (fun c f => assembler.field c f.1 f.2) c = .ok d) :
    d.fragments = c.fragments ++ fragmentsOf fields ∧ (c.Consistent → d.Consistent) := by
  induction fields generalizing c
  case nil => cases h; exact ⟨(List.append_nil _).symm, id⟩
  case cons f fields hi =>
    rw [List.foldlM_cons] at h
    obtain ⟨mid, hm, h⟩ := bind_eq_ok.mp h
    obtain ⟨hf, hc⟩ := of_addField hm
    obtain ⟨hf', hc'⟩ := hi h
    exact ⟨by rw [hf', hf, List.append_assoc]; rfl, hc' ∘ hc⟩

-- A row has all fields of its result.
theorem fragments_of_assemble (h : assembler.assemble fields = .ok c) :
    c.fragments = fragmentsOf fields := by
  obtain ⟨d, hd, rfl⟩ := map_eq_ok.mp h
  exact (of_foldlM_addField hd).1

theorem consistent_of_assemble (h : assembler.assemble fields = .ok c) : c.Consistent := by
  obtain ⟨d, hd, rfl⟩ := map_eq_ok.mp h
  exact (of_foldlM_addField hd).2 rfl

section Plain

-- The fields of a record that are compared.
def unversioned (fields : Fields) : Fields :=
  fields.filter (·.1 ≠ Tag.datasetVersion)

-- No field says that the row is void, or how it has been amended.
def Plain (fields : Fields) : Prop :=
  ∀ f ∈ fields, f.1 ≠ Tag.nullified ∧ f.1 ≠ Tag.amendmentType

theorem exists_note (c : Comparison) (text : String) (hn : tag ≠ Tag.nullified)
    (ha : tag ≠ Tag.amendmentType) : ∃ d, c.note tag text = .ok d := by
  rw [note, if_neg hn, if_neg ha]
  split
  case isTrue => exact ⟨_, rfl⟩
  case isFalse => split <;> exact ⟨_, rfl⟩

theorem foldlM_addField (c : Comparison) (h : Plain fields) :
    ∃ d, fields.foldlM (fun c f => assembler.field c f.1 f.2) c = .ok d ∧
      d.nullified = c.nullified := by
  induction fields generalizing c
  case nil => exact ⟨c, rfl, rfl⟩
  case cons f fields hi =>
    obtain ⟨⟨hn, ha⟩, h⟩ := List.forall_mem_cons.mp h
    obtain ⟨mid, hm⟩ := exists_note c f.2 hn ha
    obtain ⟨d, hd, he⟩ := hi { mid with fragments := mid.fragments ++ [⟨f.1, f.2⟩] } h
    refine ⟨d, ?_, he.trans ((of_note hm).2.2 hn)⟩
    rw [List.foldlM_cons]
    exact bind_eq_ok.mpr ⟨_, map_eq_ok.mpr ⟨mid, hm, rfl⟩, hd⟩

theorem statedId_eq (hf : c.fragments = fragmentsOf fields) (hn : (fields.map (·.1)).Nodup) :
    c.statedId = (fields.get? Tag.rowId).map trim := by
  have hn : ((fragmentsOf fields).map (·.tag)).Nodup := by
    rw [fragmentsOf, List.map_map]
    exact hn
  rw [statedId, hf, filter_key_eq hn, fragmentsOf, List.find?_map, Fields.get?]
  cases hg : fields.find? (·.1 = Tag.rowId)
  all_goals
    have hg : fields.find? ((fun f : Fragment => decide (f.tag = Tag.rowId)) ∘ fun f => ⟨f.1, f.2⟩) =
        _ := hg
    rw [hg]
    rfl

theorem content_eq (hf : c.fragments = fragmentsOf fields) (hp : Plain fields) :
    c.content = fragmentsOf (unversioned fields) := by
  rw [content, hf, fragmentsOf, fragmentsOf, List.filter_map, unversioned]
  congr 1
  refine List.filter_congr fun f hm => ?_
  simp [Fragment.isBookkeeping, (hp f hm).2]

theorem fragmentsOf_injective : Function.Injective fragmentsOf :=
  List.map_injective_iff.mpr fun _ _ h =>
    Prod.ext (congrArg Fragment.tag h) (congrArg Fragment.text h)

-- A plain record is read as a row of its identity and its fields.
theorem assemble_plain (hp : Plain fields) (hn : (fields.map (·.1)).Nodup) :
    ∃ c, assembler.assemble fields = .ok c ∧
      c.rowId = ((fields.get? Tag.rowId).map trim).filter (· ≠ "") ∧ c.nullified = false ∧
      c.content = fragmentsOf (unversioned fields) := by
  obtain ⟨c, hc, hv⟩ := foldlM_addField {} hp
  have ha : assembler.assemble fields = .ok c := map_eq_ok.mpr ⟨c, hc, rfl⟩
  have hf := fragments_of_assemble ha
  exact ⟨c, ha, by rw [consistent_of_assemble ha, statedId_eq hf hn], hv, content_eq hf hp⟩

end Plain

end Comparison

end ReportExchange
