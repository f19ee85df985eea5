import ReportExchange.Proofs.Amendment.Comparison
import ReportExchange.Proofs.Intake.Document
import ReportExchange.Proofs.Intake.Outline
import ReportExchange.Proofs.Lookup
import ReportExchange.Proofs.Xml.Element

namespace ReportExchange

open Text Xml Xml.Element Grammar

namespace Grammar

variable {α β : Type} {Content : String → List Token → α → Prop}
variable {Inner : String → List Token → β → Prop} {tag text body more : String}
variable {xs ys : List α} {zs : List β} {x : α}

-- The text is read as the elements that stand for some things, wherever it stands.
def Says (Content : String → List Token → α → Prop) (body : String) (xs : List α) : Prop :=
  ∃ es, (∀ opens, Reads (bytes body) opens es opens) ∧ Elements Content (es.flatMap Event.tokens) xs

theorem Says.nil : Says Content "" [] :=
  ⟨[], fun _ => .nil, .nil⟩

theorem Says.append (h₁ : Says Content body xs) (h₂ : Says Content more ys) :
    Says Content (body ++ more) (xs ++ ys) := by
  obtain ⟨es, hr, he⟩ := h₁
  obtain ⟨fs, hs, hf⟩ := h₂
  refine ⟨es ++ fs, fun opens => ?_, ?_⟩
  case refine_1 => rw [bytes_append]; exact (hr opens).append (hs opens)
  case refine_2 => rw [List.flatMap_append]; exact he.append hf

-- The text of a whole element.
def enclosed (tag body : String) : String :=
  "<" ++ tag ++ ">" ++ body ++ "</" ++ tag ++ ">"

theorem Says.element (h : Says Inner body zs) (hl : Legible (bytes tag))
    (hx : ∀ {ts}, Elements Inner ts zs → Content tag ts x) :
    Says Content (enclosed tag body) [x] := by
  obtain ⟨es, hr, he⟩ := h
  refine ⟨.opening tag :: (es ++ [.closing]), fun opens => ?_, ?_⟩
  case refine_1 =>
    rw [enclosed, bytes_tagged]
    exact hl.reads_opening.append ((hr _).append hl.reads_closing)
  case refine_2 =>
    have hc : Elements Content (.opening tag :: (es.flatMap Event.tokens ++ [.closing])) [x] :=
      .cons (hx he) .nil
    simpa [Event.tokens] using hc

end Grammar

-- A text that is one message is read with a record for every result.
theorem Parser.all_of_says {Draft Record : Type} {a : Assembler Draft Record} {tag body : String}
    {blocks : List Block} {rs : List Record} (h : Says IsMessage (enclosed tag body) [blocks])
    (hm : a.Makes (blocks.flatMap (·.results)) rs) :
    ∃ given p, (ofBytes (bytes (enclosed tag body)) : Parser Draft).all a = (given, none, p) ∧
      given.map (·.1) = rs := by
  obtain ⟨es, hr, he⟩ := h
  obtain ⟨position, path⟩ := hr [] [] 0
  have hw : withoutMark (bytes (enclosed tag body)) = bytes (enclosed tag body) := by
    rw [enclosed, bytes_tagged]
    rfl
  have hreadings : (Xml.readings (bytes (enclosed tag body))).map (·.event) =
      es.map .ok ++ [.ok .done] := by
    rw [Xml.readings, hw]
    rw [List.append_nil] at path
    exact Cursor.readAll_events path rfl (Nat.lt_succ_self _)
  obtain ⟨given, p, hall, hg, _⟩ := all_of_isDocument hreadings path.done_not_mem he hm
  exact ⟨given, p, hall, hg⟩

namespace Comparison

variable {c : Comparison} {fields : Fields}

-- A message with one result, which is made of the fragments.
def rendered (c : Comparison) : String :=
  enclosed Tag.message (enclosed Tag.payload (enclosed Tag.dataset (enclosed Tag.result
    (String.join (c.fragments.map (·.render))))))

theorem says_render {f : Fragment} (h : isName f.tag) :
    Says (IsField id) f.render [(f.tag, f.text)] := by
  refine ⟨taggedEvents f.tag f.text, fun _ => reads_tagged (legible_of_isName h), ?_⟩
  have hf (ts : List Token) (ht : Texts ts f.text) :
      Elements (IsField id) (.opening f.tag :: (ts ++ [.closing])) [(f.tag, f.text)] :=
    .cons ⟨rfl, ht⟩ .nil
  rw [taggedEvents]
  split
  case isTrue ht => exact hf [] (ht ▸ .nil)
  case isFalse   => exact hf [.text f.text] (by simpa using Texts.cons (s := f.text) .nil)

theorem says_fragments (h : ∀ f ∈ fragmentsOf fields, isName f.tag) :
    Says (IsField id) (String.join ((fragmentsOf fields).map (·.render))) fields := by
  induction fields
  case nil => exact .nil
  case cons f fields hi =>
    obtain ⟨hf, h⟩ := List.forall_mem_cons.mp h
    have hj : String.join ((fragmentsOf (f :: fields)).map (·.render)) =
        Fragment.render ⟨f.1, f.2⟩ ++ String.join ((fragmentsOf fields).map (·.render)) :=
      String.join_cons
    rw [hj]
    exact (says_render hf).append (hi h)

theorem says_rendered (hf : c.fragments = fragmentsOf fields)
    (hn : ∀ f ∈ c.fragments, isName f.tag) :
    Says IsMessage c.rendered [[.payload [.dataset [fields]]]] := by
  have hr : Says IsResult (enclosed Tag.result _) [fields] :=
    (says_fragments (hf ▸ hn)).element (legible_of_isName (by decide)) fun h => ⟨rfl, h⟩
  have hd : Says IsPart _ [.dataset [fields]] :=
    hr.element (legible_of_isName (by decide)) .dataset
  have hp : Says IsBlock _ [.payload [.dataset [fields]]] :=
    hd.element (legible_of_isName (by decide)) .payload
  rw [rendered, hf]
  exact hp.element (legible_of_isName (by decide)) fun h => ⟨rfl, h⟩

-- Whatever row a parser gives has been made of fields.
theorem exists_assemble_of_all {document : List UInt8} {given : List (Comparison × Nat)}
    {error : Option IntakeError} {p : Parser Comparison}
    (hall : (Parser.ofBytes document).all assembler = (given, error, p))
    (hc : c ∈ given.map (·.1)) : ∃ fields, assembler.assemble fields = .ok c := by
  obtain ⟨_, _, _, _, _, _, ht, _⟩ := Parser.takes_of_all hall
  obtain ⟨_, _, fields, _, ha⟩ := exists_of_mem_forall₂ (Intake.follows_of_takes ht).records hc
  exact ⟨fields, ha⟩

-- A row of a document, written out as one, is read as the same row again.
theorem rendered_reads_back {document : List UInt8} {given : List (Comparison × Nat)}
    {error : Option IntakeError} {p : Parser Comparison}
    (hall : (Parser.ofBytes document).all assembler = (given, error, p))
    (hc : c ∈ given.map (·.1)) (hn : ∀ f ∈ c.fragments, isName f.tag) :
    ∃ position q,
      (Parser.ofBytes (bytes c.rendered)).all assembler = ([(c, position)], none, q) := by
  obtain ⟨fields, ha⟩ := exists_assemble_of_all hall hc
  have hm : assembler.Makes [fields] [c] := .cons ha .nil
  obtain ⟨given', q, hread, hg⟩ :=
    Parser.all_of_says (says_rendered (fragments_of_assemble ha) hn) hm
  obtain ⟨⟨_, position⟩, rfl, rfl⟩ := List.map_eq_singleton_iff.mp hg
  exact ⟨position, q, hread⟩

-- A row of which every kind of field says something, with a text in two pieces. Its document breaks
-- off after it.
def scribbled : String :=
  "<message><payload><dataset><result><recordId> 7 </recordId><nullified>Y</nullified>" ++
  "<amType> M</amType><datasetVersion>1.02</datasetVersion>" ++
  "<note> a &lt;<![CDATA[b>&amp; ]]></note><note/></result><result>"

def scribbledRow : Comparison where
  rowId     := some "7"
  nullified := true
  amendment := some .modified
  fragments := [⟨"recordId", " 7 "⟩, ⟨"nullified", "Y"⟩, ⟨"amType", " M"⟩,
    ⟨"datasetVersion", "1.02"⟩, ⟨"note", " a <b>&amp; "⟩, ⟨"note", ""⟩]
  version   := some "02"

theorem rendered_reads_back_scribbled :
    ∃ p, (Parser.ofBytes (bytes scribbled)).all assembler =
        ([(scribbledRow, 195)], some ⟨203, .unexpectedEnd Tag.result⟩, p) ∧
      (∀ f ∈ scribbledRow.fragments, isName f.tag) ∧
      ∃ position q, (Parser.ofBytes (bytes scribbledRow.rendered)).all assembler =
        ([(scribbledRow, position)], none, q) := by
  have hrun : let run := (Parser.ofBytes (bytes scribbled)).all assembler
      run.1 = [(scribbledRow, 195)] ∧
        run.2.1 = some ⟨203, .unexpectedEnd Tag.result⟩ := by decide +kernel
  have hn : ∀ f ∈ scribbledRow.fragments, isName f.tag := by decide
  rcases hall : (Parser.ofBytes (bytes scribbled)).all assembler with ⟨given, error, p⟩
  rw [hall] at hrun
  obtain ⟨rfl, rfl⟩ := hrun
  exact ⟨p, rfl, hn, rendered_reads_back hall List.mem_cons_self hn⟩

end Comparison

end ReportExchange
