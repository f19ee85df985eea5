import ReportExchange.Intake.Rows
import ReportExchange.Proofs.Ancestor.Inject
import ReportExchange.Proofs.Intake.Message
import ReportExchange.Proofs.Report.Fields

namespace ReportExchange

-- A row that is not stored, with the fields as plain cells and no other cell.
structure Row.Carries (t : Table) (fields : Fields) (r : Row) : Prop where
  table   : r.table = t
  id      : r.id = .unset
  version : r.version = none
  cells   : ∀ column, r.cells column = (fields.get? column).map .plain

variable {t : Table} {row : Row}

theorem field_rowAssembler {f : String × String} (h : row.table.declares f.1) :
    ∃ row', (rowAssembler t none).field row f.1 f.2 = .ok row' ∧
      row.put f.1 (.plain f.2) = .ok row' := by
  have ⟨row', hp⟩ := Row.exists_put h (.plain f.2)
  refine ⟨row', ?_, hp⟩
  have hc : row.putCode f.1 f.2 = .ok row' := hp
  simp [rowAssembler, Row.putField, h, hc]

theorem foldlM_rowAssembler (row : Row) {fields : Fields} (hn : (fields.map (·.1)).Nodup)
    (hd : ∀ f ∈ fields, row.table.declares f.1) :
    ∃ row', fields.foldlM (fun row f => (rowAssembler t none).field row f.1 f.2) row = .ok row' ∧
      row'.table = row.table ∧ row'.id = row.id ∧ row'.version = row.version ∧
      ∀ column, row'.cells column = ((fields.get? column).map .plain).or (row.cells column) := by
  induction fields generalizing row
  case nil => exact ⟨row, rfl, rfl, rfl, rfl, fun _ => rfl⟩
  case cons f fields hi =>
    have ⟨hm, hn⟩ := List.nodup_cons.mp hn
    have ⟨hf, hd⟩ := List.forall_mem_cons.mp hd
    have ⟨mid, hfield, hp⟩ := field_rowAssembler (t := t) hf
    have ⟨ht, hid, hv⟩ := Row.frame_of_put hp
    have ⟨row', hr, ht', hid', hv', hc⟩ := hi mid hn (ht ▸ hd)
    refine ⟨row', ?_, ht'.trans ht, hid'.trans hid, hv'.trans hv, fun column => ?_⟩
    case refine_1 => rw [List.foldlM_cons, hfield]; exact hr
    case refine_2 =>
      have hg : mid.cells column = if column = f.1 then some (.plain f.2) else row.cells column :=
        Row.get_of_put hp column
      rw [hc, hg, Fields.get?, Fields.get?]
      by_cases e : f.1 = column
      case neg => rw [List.find?_cons_of_neg (by simpa using e), if_neg (Ne.symm e)]
      case pos =>
        have hnone : Fields.get? fields column = none :=
          Fields.get?_eq_none_iff.mpr (e ▸ hm)
        rw [Fields.get?] at hnone
        rw [List.find?_cons_of_pos (by simpa using e), hnone, if_pos e.symm]
        rfl

theorem assemble_rowAssembler {fields : Fields} (hn : (fields.map (·.1)).Nodup)
    (hd : ∀ f ∈ fields, t.declares f.1) :
    ∃ row, (rowAssembler t none).assemble fields = .ok row ∧ row.Carries t fields := by
  have ⟨row, hr, ht, hid, hv, hc⟩ := foldlM_rowAssembler (t := t) (.blank t) hn hd
  refine ⟨row, map_eq_ok.mpr ⟨row, hr, rfl⟩, ht, hid, hv, fun column => ?_⟩
  exact (hc column).trans (Option.or_none)

end ReportExchange
