import ReportExchange.Proofs.Xml.Legible

namespace ReportExchange.Xml

open Text

-- The code points that a name may begin with, as ranges: the colon, letters, the underscore first.
def nameStarts : List (Nat × Nat) :=
  [(0x3A, 0x3A), (0x41, 0x5A), (0x5F, 0x5F), (0x61, 0x7A), (0xC0, 0xD6), (0xD8, 0xF6),
   (0xF8, 0x2FF), (0x370, 0x37D), (0x37F, 0x1FFF), (0x200C, 0x200D), (0x2070, 0x218F),
   (0x2C00, 0x2FEF), (0x3001, 0xD7FF), (0xF900, 0xFDCF), (0xFDF0, 0xFFFD), (0x10000, 0xEFFFF)]

-- Those that may only follow: hyphen and point, digits, the middle dot and combining marks.
def nameExtensions : List (Nat × Nat) :=
  [(0x2D, 0x2E), (0x30, 0x39), (0xB7, 0xB7), (0x300, 0x36F), (0x203F, 0x2040)]

def within (ranges : List (Nat × Nat)) (n : Nat) : Bool :=
  ranges.any fun (first, last) => first ≤ n && n ≤ last

def isName (s : String) : Bool :=
  match s.toList with
  | []      => false
  | c :: cs =>
    within nameStarts c.toNat && cs.all fun c => within (nameStarts ++ nameExtensions) c.toNat

-- The bytes that mean something to a reader inside a tag.
def tagBytes : Bytes :=
  [0x20, 0x09, 0x0A, 0x0D, greaterThan, slash, bang, question, doubleQuote, singleQuote]

theorem within_append {ranges more : List (Nat × Nat)} {n : Nat} :
    within (ranges ++ more) n = (within ranges n || within more n) :=
  List.any_append

theorem not_within_tagBytes : tagBytes.all fun b =>
    b < 0x80 && !within (nameStarts ++ nameExtensions) b.toNat := by
  decide

theorem within_of_isName {s : String} (h : isName s) {c : Char} (hc : c ∈ s.toList) :
    within (nameStarts ++ nameExtensions) c.toNat := by
  rw [isName] at h
  split at h
  case h_1 => cases h
  case h_2 first cs e =>
    have ⟨hf, hcs⟩ := Bool.and_eq_true_iff.mp h
    rw [e] at hc
    cases List.mem_cons.mp hc
    case inl e  => rw [e, within_append, hf, Bool.true_or]
    case inr hc => exact List.all_eq_true.mp hcs c hc

theorem plain_of_isName {s : String} (h : isName s) : ∀ b ∈ bytes s, b ∉ tagBytes := by
  intro b hb ht
  have ⟨hlt, hn⟩ := Bool.and_eq_true_iff.mp (List.all_eq_true.mp not_within_tagBytes b ht)
  have ⟨c, hc, e⟩ := mem_of_mem_bytes hb (of_decide_eq_true hlt)
  rw [← e, within_of_isName h hc] at hn
  cases hn

theorem quoted_of_plain {bs : Bytes} (h : ∀ b ∈ bs, b ∉ tagBytes) : Quoted bs := by
  induction bs
  case nil           => exact .nil
  case cons b bs hi =>
    have ⟨hb, h⟩ := List.forall_mem_cons.mp h
    have hs : greaterThan :: quotes ⊆ tagBytes := by decide
    exact .plain (fun hm => hb (hs hm)) (hi h)

theorem legible_of_isName {s : String} (h : isName s) : Legible (bytes s) := by
  have hp := plain_of_isName h
  refine ⟨?nonempty, ?unspaced, ?first, ?last, quoted_of_plain hp⟩
  case nonempty =>
    intro e
    rw [bytes_eq_nil_iff.mp e] at h
    cases h
  case unspaced =>
    intro b hb
    have := hp b hb
    simp_all [tagBytes, isSpace]
  case first =>
    intro b hb hl
    have hs : leads ⊆ tagBytes := by decide
    exact hp b (List.mem_of_mem_head? hb) (hs hl)
  case last =>
    intro hl
    exact hp slash (List.mem_of_getLast? hl) (by decide)

end ReportExchange.Xml
