import ReportExchange.Proofs.Identity
import ReportExchange.Proofs.Json.RoundTrip
import ReportExchange.Proofs.Store.Loaded

namespace ReportExchange

open Datum

theorem Cell.ofDatum?_toDatum (c : Cell) : Cell.ofDatum? c.toDatum = some c := by
  obtain ⟨code, label⟩ := c
  rw [toDatum]
  split
  case isTrue h =>
    cases h
    rfl
  case isFalse => rfl

theorem Cell.writable (c : Cell) : Json.Writable c.toDatum := by
  rw [toDatum]
  split
  case isTrue  => exact .text c.code
  case isFalse => exact .record (by simp [Json.Writable.text])

theorem RowId.ofDatum?_toDatum {id : RowId} (h : id.isSet) :
    RowId.ofDatum? id.toDatum = some id := by
  have hp := plain_text h
  have ht : toString id.val.toInt = id.text := rfl
  have hr : Text.readInt64 id.text.toList = .ok id.val := by
    rw [readInt64_eq_ok_iff hp h, toList_text h, Nat.ofDigitChars_ten_toDigits]
  have hz : id.text ≠ "-0" := by
    intro e
    rw [e] at hp
    exact absurd hp (by decide)
  rw [toDatum, RowId.ofDatum?, ofInt, ht, int64?, if_neg hz, hr]
  rfl

theorem RowId.writable (id : RowId) : Json.Writable id.toDatum :=
  .number (Json.isNumeral_toString id.val.toInt)

namespace Record

variable {r : Record}

theorem cellsOfDatum?_toDatum {cells : List (String × Cell)} (h : Index.Ascending cells) :
    cellsOfDatum? (.record (cells.map fun (column, c) => (column, c.toDatum))) = some cells := by
  rw [cellsOfDatum?, entries?]
  simp only [Option.bind_eq_bind, Option.bind_some]
  rw [mapM_map_eq_some, Option.bind_some, Index.ofList_of_ascending h]
  · rfl
  · intro e _
    simp only [Cell.ofDatum?_toDatum, Option.map_some]

theorem ofDatum?_toDatum (hid : r.id.isSet) (hc : Index.Ascending r.cells) :
    Record.ofDatum? r.toDatum = some r := by
  obtain ⟨id, version, cells⟩ := r
  have hi := RowId.ofDatum?_toDatum hid
  have hcells := cellsOfDatum?_toDatum hc
  cases version <;>
    simp [ofDatum?, toDatum, members?, Members.withDefault, nullable, text?, hi, hcells]

theorem writable (r : Record) : Json.Writable r.toDatum := by
  refine .record fun e he => ?_
  simp only [List.mem_append, List.mem_singleton, Option.mem_toList, Option.map_eq_some_iff] at he
  obtain (rfl | ⟨v, _, rfl⟩) | rfl := he
  case inl.inl => exact RowId.writable r.id
  case inl.inr => exact .text v
  case inr     =>
    refine .record fun e he => ?_
    obtain ⟨c, _, rfl⟩ := List.mem_map.mp he
    exact c.2.writable

end Record

namespace Row

variable {r : Row}

theorem cells_of_mem_populated {e : String × Cell} (h : e ∈ r.populated) :
    r.cells e.1 = some e.2 := by
  obtain ⟨c, _, he⟩ := List.mem_filterMap.mp h
  obtain ⟨cell, hc, rfl⟩ := Option.map_eq_some_iff.mp he
  exact hc

theorem mem_keys_populated {column : String} (h : (r.cells column).isSome) :
    column ∈ r.populated.map (·.1) := by
  obtain ⟨c, hm, hc⟩ := List.any_eq_true.mp (r.declared column h)
  obtain ⟨cell, hcell⟩ := Option.isSome_iff_exists.mp h
  cases of_decide_eq_true hc
  refine List.mem_map.mpr ⟨(c.id, cell), List.mem_filterMap.mpr ⟨c, hm, ?_⟩, rfl⟩
  rw [hcell, Option.map_some]

-- A record of declared columns is taken over as a whole.
theorem exists_foldlM_put {cells : List (String × Cell)} (h : ∀ e ∈ cells, r.table.declares e.1) :
    ∃ s, cells.foldlM (fun row (column, cell) => row.put column cell) r = .ok s := by
  induction cells generalizing r
  case nil => exact ⟨r, rfl⟩
  case cons e cells hi =>
    obtain ⟨he, hs⟩ := List.forall_mem_cons.mp h
    cases hp : r.put e.1 e.2
    case error u => exact absurd he (put_eq_error_iff.mp hp).1
    case ok mid  =>
      have ht := (frame_of_put hp).1
      obtain ⟨s, h⟩ := hi (r := mid) (ht ▸ hs)
      exact ⟨s, bind_eq_ok.mpr ⟨mid, hp, h⟩⟩

theorem ofRecord_toRecord (r : Row) : Row.ofRecord r.table r.toRecord = .ok r := by
  have hd : ∀ e ∈ r.toRecord.cells, r.table.declares e.1 := by
    intro e he
    refine r.declared e.1 ?_
    rw [cells_of_mem_populated (Index.mem_of_mem_ofList he)]
    rfl
  obtain ⟨s, hs⟩ : ∃ s, Row.ofRecord r.table r.toRecord = .ok s := exists_foldlM_put hd
  have hf := Row.from_of_ofRecord (Index.ascending_ofList r.populated).nodup hs
  have hc : s.cells = r.cells := funext fun column =>
    (hf.reflects.cells column).trans
      (Index.find?_ofList (fun _ => cells_of_mem_populated) (fun _ => mem_keys_populated) column)
  rw [hs, Row.ext hf.table hf.id hf.reflects.version hc]

end Row

end ReportExchange
