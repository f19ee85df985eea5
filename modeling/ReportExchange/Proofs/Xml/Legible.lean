import Mathlib.Data.List.TakeWhile
import ReportExchange.Proofs.Text.Encoding
import ReportExchange.Xml.Reader

namespace ReportExchange.Xml

open Text

def quotes : Bytes :=
  [doubleQuote, singleQuote]

-- Every quotation is closed, and a `>` stands in quotations only.
inductive Quoted : Bytes → Prop
  | nil : Quoted []
  | plain {b : UInt8} {bs : Bytes} : b ∉ greaterThan :: quotes → Quoted bs → Quoted (b :: bs)
  | quotation {q : UInt8} {inner bs : Bytes} :
    q ∈ quotes → q ∉ inner → Quoted bs → Quoted (q :: (inner ++ q :: bs))

section Cut

variable {b q : UInt8} {bs content inner rest : Bytes}

theorem mem_quotes_iff : b ∈ quotes ↔ b = doubleQuote ∨ b = singleQuote := by
  simp [quotes]

theorem greaterThan_not_mem_quotes : greaterThan ∉ quotes := by
  decide

theorem cutTag_plain (h : b ∉ greaterThan :: quotes) :
    cutTag none (b :: bs) = (cutTag none bs).map fun (content, rest) => (b :: content, rest) := by
  have ⟨hg, hq⟩ := List.ne_and_not_mem_of_not_mem_cons h
  rw [cutTag]
  dsimp only
  rw [if_neg hg, if_neg (mt mem_quotes_iff.mpr hq)]

theorem cutTag_quote (h : q ∈ quotes) :
    cutTag none (q :: bs) = (cutTag (some q) bs).map fun (content, rest) => (q :: content, rest) := by
  have hg : q ≠ greaterThan := fun e => greaterThan_not_mem_quotes (e ▸ h)
  rw [cutTag]
  dsimp only
  rw [if_neg hg, if_pos (mem_quotes_iff.mp h)]

theorem cutTag_quotation (h : q ∉ inner) :
    cutTag (some q) (inner ++ q :: bs) =
      (cutTag none bs).map fun (content, rest) => (inner ++ q :: content, rest) := by
  induction inner
  case nil => simp [cutTag]
  case cons b inner hi =>
    have ⟨hb, h⟩ := List.ne_and_not_mem_of_not_mem_cons h
    rw [List.cons_append, cutTag]
    simp [hb.symm, hi h, Function.comp_def]

theorem cutTag_of_quoted (h : Quoted content) (rest : Bytes) :
    cutTag none (content ++ greaterThan :: rest) = some (content, rest) := by
  induction h
  case nil                 => simp [cutTag]
  case plain hb _ hi       => rw [List.cons_append, cutTag_plain hb, hi]; rfl
  case quotation hq hn _ hi =>
    rw [List.cons_append, List.append_assoc, List.cons_append, cutTag_quote hq,
      cutTag_quotation hn, hi]
    rfl

-- Content that may begin within a quotation.
def QuotedFrom : Option UInt8 → Bytes → Prop
  | none, content   => Quoted content
  | some q, content => ∃ inner more, content = inner ++ q :: more ∧ q ∉ inner ∧ Quoted more

theorem of_cutTag {quote : Option UInt8} (h : cutTag quote bs = some (content, rest)) :
    bs = content ++ greaterThan :: rest ∧ QuotedFrom quote content := by
  induction bs generalizing quote content
  case nil => cases h
  case cons b bs hi =>
    cases quote
    case none =>
      by_cases hg : b = greaterThan
      case pos =>
        obtain ⟨rfl, rfl⟩ : content = [] ∧ bs = rest := by simpa [cutTag, hg] using h
        exact ⟨by rw [hg]; rfl, .nil⟩
      case neg =>
        by_cases hq : b ∈ quotes
        case pos =>
          rw [cutTag_quote hq] at h
          obtain ⟨⟨_, _⟩, hc, ⟨⟩⟩ := Option.map_eq_some_iff.mp h
          obtain ⟨rfl, inner, more, rfl, hn, hm⟩ := hi hc
          exact ⟨rfl, .quotation hq hn hm⟩
        case neg =>
          have hb : b ∉ greaterThan :: quotes := List.not_mem_cons_of_ne_of_not_mem hg hq
          rw [cutTag_plain hb] at h
          obtain ⟨⟨_, _⟩, hc, ⟨⟩⟩ := Option.map_eq_some_iff.mp h
          obtain ⟨rfl, hm⟩ := hi hc
          exact ⟨rfl, .plain hb hm⟩
    case some q =>
      rw [cutTag] at h
      obtain ⟨⟨_, _⟩, hc, ⟨⟩⟩ := Option.map_eq_some_iff.mp h
      obtain ⟨rfl, hm⟩ := hi hc
      refine ⟨rfl, ?_⟩
      by_cases hb : b = q
      case pos =>
        rw [if_pos hb] at hm
        exact ⟨[], _, by rw [hb]; rfl, List.not_mem_nil, hm⟩
      case neg =>
        rw [if_neg hb] at hm
        obtain ⟨inner, more, rfl, hn, hm⟩ := hm
        exact ⟨b :: inner, more, rfl, List.not_mem_cons_of_ne_of_not_mem (Ne.symm hb) hn, hm⟩

-- Where a tag is cut.
theorem cutTag_eq_some_iff :
    cutTag none bs = some (content, rest) ↔ bs = content ++ greaterThan :: rest ∧ Quoted content := by
  constructor
  case mp  => exact of_cutTag
  case mpr => rintro ⟨rfl, h⟩; exact cutTag_of_quoted h rest

end Cut

-- What markup other than a start tag begins with.
def leads : Bytes :=
  [slash, bang, question]

-- Between its brackets, in an empty tag and in an end tag alike, the name is read as it is written.
structure Legible (name : Bytes) : Prop where
  nonempty : name ≠ []
  unspaced : ∀ b ∈ name, isSpace b = false
  first    : ∀ b ∈ name.head?, b ∉ leads
  last     : name.getLast? ≠ some slash
  quoted   : Quoted name

namespace Legible

variable {name : Bytes}

theorem nameOf_eq (h : Legible name) : Cursor.nameOf name = name := by
  rw [Cursor.nameOf, List.takeWhile_eq_self_iff]
  intro b hb
  rw [h.unspaced b hb, Bool.not_false]

theorem dropSpaceEnd_eq (h : Legible name) : dropSpaceEnd name = name := by
  have hd : name.reverse.dropWhile isSpace = name.reverse := by
    rw [List.dropWhile_eq_self_iff]
    intro hl
    rw [h.unspaced _ (List.mem_reverse.mp (List.getElem_mem hl))]
    decide
  rw [dropSpaceEnd, hd, List.reverse_reverse]

theorem all_isSpace (h : Legible name) : name.all isSpace = false := by
  have ⟨b, hb⟩ := List.exists_mem_of_ne_nil name h.nonempty
  rw [List.all_eq_false]
  exact ⟨b, hb, by rw [h.unspaced b hb]; decide⟩

end Legible

end ReportExchange.Xml
