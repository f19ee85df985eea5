import Mathlib.Data.List.Nodup
import ReportExchange.Report.Message

namespace ReportExchange

namespace Message

variable {root : Row} {failed : List String}

-- A value that takes the place of another leaves its field where it is.
theorem keys_replaced {κ : Type} [DecidableEq κ] (field : κ) (value : String)
    (fields : List (κ × String)) :
    (fields.map fun slot => if slot.1 = field then (field, value) else slot).map (·.1) =
      fields.map (·.1) := by
  rw [List.map_map]
  refine List.map_congr_left fun slot _ => ?_
  by_cases h : slot.1 = field <;> simp [h]

theorem keys_overrideHeader (header : List (HeaderField × String)) :
    (overrideHeader root failed header).map (·.1) = header.map (·.1) := by
  rw [overrideHeader]
  induction root.table.columnsWith .header generalizing header
  case nil => rfl
  case cons c cs hi =>
    rw [List.foldl_cons, hi]
    split
    case h_2 => rfl
    case h_1 =>
      split
      case isTrue  => rfl
      case isFalse => exact keys_replaced ..

theorem keys_header (sender : Sender) (stamp : Stamp) :
    (overrideHeader root failed (sender.header stamp)).map (·.1) = HeaderField.all :=
  (keys_overrideHeader _).trans rfl

theorem nodup_setField {field : OperationField} {value : String}
    {fields : List (OperationField × String)} (hn : (fields.map (·.1)).Nodup) :
    ((setField field value fields).map (·.1)).Nodup := by
  rw [setField]
  split
  case isTrue =>
    rw [keys_replaced]
    exact hn
  case isFalse h =>
    rw [List.map_append, List.nodup_append]
    refine ⟨hn, List.nodup_singleton _, fun x hx y hy e => h ?_⟩
    have ⟨slot, hs, hk⟩ := List.mem_map.mp hx
    refine List.any_eq_true.mpr ⟨slot, hs, decide_eq_true ?_⟩
    exact hk.trans (e.trans (List.mem_singleton.mp hy))

theorem nodup_inOrder {fields : List (OperationField × String)} (hn : (fields.map (·.1)).Nodup) :
    ((inOrder fields).map (·.1)).Nodup := by
  rw [inOrder, List.map_flatMap, List.nodup_flatMap]
  constructor
  case left => exact fun field _ => hn.sublist (List.filter_sublist.map _)
  case right =>
    refine List.Pairwise.imp (fun {field other} hne x hx hy => hne ?_)
      (by decide : OperationField.all.Nodup)
    have key {f : OperationField} (h : x ∈ (fields.filter (·.1 = f)).map (·.1)) : x = f := by
      have ⟨slot, hs, e⟩ := List.mem_map.mp h
      exact e ▸ of_decide_eq_true (List.mem_filter.mp hs).2
    exact (key hx).symm.trans (key hy)

theorem nodup_fields (op : Operation) : (op.fields.map (·.1)).Nodup := by
  rw [Operation.fields]
  cases op.dataCollection <;> cases op.comment <;> simp

theorem nodup_overrideOperation {fields : List (OperationField × String)}
    (hn : (fields.map (·.1)).Nodup) : ((overrideOperation root failed fields).map (·.1)).Nodup := by
  rw [overrideOperation]
  refine nodup_inOrder ?_
  induction root.table.columnsWith .operation generalizing fields
  case nil => exact hn
  case cons c cs hi =>
    rw [List.foldl_cons]
    apply hi
    split
    case h_2 => exact hn
    case h_1 =>
      split
      case isTrue  => exact hn
      case isFalse => exact nodup_setField hn

end Message

end ReportExchange
