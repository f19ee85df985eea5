import ReportExchange.Proofs.Lookup
import ReportExchange.Proofs.Success
import ReportExchange.Proofs.Text.Split
import ReportExchange.Schema.Formula

namespace ReportExchange

open Text

theorem Half.ofName?_eq_some_iff {name : String} {half : Half} :
    ofName? name = some half ↔ half.name = name := by
  have hn : (Half.all.map Half.name).Nodup := by decide
  rw [ofName?, find?_key_eq_some_iff hn]
  cases half <;> simp [Half.all]

theorem Half.point_not_mem_name (half : Half) : '.' ∉ half.name.toList := by
  cases half <;> decide

theorem Half.name_ne_empty (half : Half) : half.name ≠ "" := by
  cases half <;> decide

namespace Formula

variable {text column : String} {half : Half} {f : Formula}

-- A reference to half of a column, with nothing around it. The name of the column ends at the point,
-- and may hold anything else.
structure IsReference (text column : String) (half : Half) : Prop where
  named   : column ≠ ""
  plain   : '.' ∉ column.toList
  written : text = "%" ++ column ++ "." ++ half.name

theorem ofPieces_eq_ok_iff {tokens : List (List Char)} :
    ofPieces text tokens = .ok f ↔
      tokens = [f.column.toList, f.half.name.toList] ∧ f.column ≠ "" ∧ f.source = trim text := by
  constructor
  case mp =>
    intro h
    rw [ofPieces.eq_def] at h
    split at h
    case h_2 => cases h
    case h_1 p q =>
      split at h
      case isTrue => cases h
      case isFalse he =>
        split at h <;> cases h
        case h_1 half hh =>
          have hq : half.name = String.ofList q := Half.ofName?_eq_some_iff.mp hh
          have hp : p ≠ [] := by simp at he; exact he.1
          simp [hq, hp]
  case mpr =>
    rintro ⟨rfl, hc, hs⟩
    have hh : Half.ofName? f.half.name = some f.half := Half.ofName?_eq_some_iff.mpr rfl
    have hn := f.half.name_ne_empty
    simp [ofPieces, hc, hn, hh, ← hs]

-- What a text has to be in order to be read as a given formula.
theorem compile_eq_ok_iff :
    compile text = .ok f ↔ IsReference (trim text) f.column f.half ∧ f.source = trim text := by
  have hw : trim text = "%" ++ f.column ++ "." ++ f.half.name ↔
      trimmed text.toList = '%' :: (f.column.toList ++ '.' :: f.half.name.toList) := by
    rw [trim, ← String.toList_inj]
    simp
  constructor
  case mp =>
    intro h
    rw [compile] at h
    split at h
    case h_2 => cases h
    case h_1 body hb =>
      obtain ⟨hp, hc, hs⟩ := ofPieces_eq_ok_iff.mp h
      obtain ⟨he, hn, _⟩ := pieces_eq_pair_iff.mp hp
      exact ⟨⟨hc, hn, hw.mpr (he ▸ hb)⟩, hs⟩
  case mpr =>
    rintro ⟨⟨hc, hn, ht⟩, hs⟩
    have hp := pieces_eq_pair_iff.mpr ⟨rfl, hn, f.half.point_not_mem_name⟩
    rw [compile, hw.mp ht]
    exact ofPieces_eq_ok_iff.mpr ⟨hp, hc, hs⟩

-- A text is a formula if and only if it is a reference with no more than blanks around it, and then it
-- is the formula for that reference. The text that a formula keeps is read as the same formula.
theorem compile_accepts_references (text : String) :
    (∀ f, compile text = .ok f ↔
      IsReference (trim text) f.column f.half ∧ f.source = trim text) ∧
    ((∃ f, compile text = .ok f) ↔ ∃ column half, IsReference (trim text) column half) ∧
    (compile text).bind (fun f => compile f.source) = compile text := by
  refine ⟨fun _ => compile_eq_ok_iff, ?accepted, ?again⟩
  case accepted =>
    constructor
    case mp  => exact fun ⟨f, h⟩ => ⟨f.column, f.half, (compile_eq_ok_iff.mp h).1⟩
    case mpr =>
      intro ⟨column, half, h⟩
      exact ⟨⟨trim text, column, half⟩, compile_eq_ok_iff.mpr ⟨h, rfl⟩⟩
  case again =>
    cases h : compile text
    case error   => rfl
    case ok f =>
      have ⟨hr, hs⟩ := compile_eq_ok_iff.mp h
      have ht : trim f.source = trim text := by rw [hs, trim_trim]
      exact compile_eq_ok_iff.mpr ⟨ht ▸ hr, hs.trans ht.symm⟩

-- The marker counts only where it comes first.
example : compile " %%dye.label\n" = .ok ⟨"%%dye.label", "%dye", .label⟩ := by
  decide

end Formula

end ReportExchange
