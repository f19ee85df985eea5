import ReportExchange.Proofs.Intake.Awaits
import ReportExchange.Proofs.Xml.Element
import ReportExchange.Report.Message

namespace ReportExchange

open Text Xml Xml.Element Grammar

namespace Grammar

variable {α β κ : Type} {Content : String → List Token → α → Prop}
variable {Inner : String → List Token → β → Prop} {depth : Nat}

theorem allBlank_lineStart (depth : Nat) : allBlank (lineStart depth) := by
  rw [allBlank, List.all_eq_true]
  intro c hc
  cases lineStart_chars depth c hc
  case inl e => exact e ▸ rfl
  case inr e => exact e ▸ rfl

-- An element is written as the one that stands for something.
def Writes (Content : String → List Token → α → Prop) (e : Element) (x : α) : Prop :=
  ∀ depth, Elements Content ((events depth e).flatMap Event.tokens) [x]

theorem elements_eventsAll {es : List Element} {xs : List α}
    (h : List.Forall₂ (Writes Content) es xs) (depth : Nat) :
    Elements Content ((eventsAll depth es).flatMap Event.tokens) xs := by
  induction h
  case nil => exact .nil
  case cons h _ hi =>
    rw [eventsAll, List.flatMap_append]
    exact (h depth).append hi

-- A field is written as one tag or as two, and its text as it is.
theorem writes_leaf (name : κ → String) (f : κ × String) :
    Writes (IsField name) (.leaf (name f.1) f.2) f := by
  intro depth
  refine .blank (allBlank_lineStart depth) ?_
  rw [leafEvents]
  split
  case isTrue ht  =>
    have hf : IsField name (name f.1) [] f := ⟨rfl, ht ▸ .nil⟩
    exact .cons hf .nil
  case isFalse ht =>
    have hf : IsField name (name f.1) [.text f.2] f :=
      ⟨rfl, by simpa using Texts.cons (s := f.2) .nil⟩
    exact .cons hf .nil

theorem writes_branch {tag : String} {x : α} {children : List Element} {ys : List β}
    (hx : ∀ {ts}, Elements Inner ts ys → Content tag ts x)
    (h : List.Forall₂ (Writes Inner) children ys) : Writes Content (.branch tag children) x := by
  intro depth
  have hl : Elements Inner [.text (lineStart depth)] [] := .blank (allBlank_lineStart depth) .nil
  have hc := (elements_eventsAll h (depth + 1)).append hl
  rw [List.append_nil] at hc
  have he := Elements.blank (allBlank_lineStart depth) (.cons (hx hc) .nil)
  simpa [events, Event.tokens] using he

theorem writes_fields (name : κ → String) (fields : List (κ × String)) :
    List.Forall₂ (Writes (IsField name)) (fields.map fun f => .leaf (name f.1) f.2) fields := by
  rw [List.forall₂_map_left_iff, List.forall₂_same]
  exact fun f _ => writes_leaf name f

theorem writes_result (fields : Fields) : Writes IsResult (Message.resultElement fields) fields :=
  writes_branch (fun h => ⟨rfl, h⟩) (writes_fields id fields)

theorem writes_results (results : List Fields) :
    List.Forall₂ (Writes IsResult) (results.map Message.resultElement) results := by
  rw [List.forall₂_map_left_iff, List.forall₂_same]
  exact fun fields _ => writes_result fields

-- The blocks of a message that is written.
def blocksOf (m : Message) : List Block :=
  [.header m.header, .payload (.operation m.operation :: (m.dataset.map .dataset).toList)]

theorem isDocument_blocksOf (m : Message) :
    IsDocument ((events depth m.toElement).flatMap Event.tokens) (blocksOf m) := by
  have hd : List.Forall₂ (Writes IsPart) (m.dataset.map fun results =>
      Element.branch Tag.dataset (results.map Message.resultElement)).toList
      (m.dataset.map .dataset).toList := by
    cases m.dataset
    case none         => exact .nil
    case some results => exact .cons (writes_branch .dataset (writes_results results)) .nil
  have ho := writes_branch IsPart.operation (writes_fields OperationField.tag m.operation)
  have hh := writes_branch IsBlock.header (writes_fields HeaderField.tag m.header)
  have hp := writes_branch IsBlock.payload (.cons ho hd)
  exact writes_branch (fun h => ⟨rfl, h⟩) (.cons hh (.cons hp .nil)) depth

end Grammar

mutual

theorem Xml.Element.done_not_mem_events : ∀ (e : Element) (depth : Nat), .done ∉ events depth e
  | .leaf tag text, depth => by
    rw [events, leafEvents]
    split <;> simp
  | .branch tag children, depth => by
    simp [events, done_not_mem_eventsAll children (depth + 1)]

theorem Xml.Element.done_not_mem_eventsAll :
    ∀ (es : List Element) (depth : Nat), .done ∉ eventsAll depth es
  | [], depth      => by simp [eventsAll]
  | e :: es, depth => by
    simp [eventsAll, done_not_mem_events e depth, done_not_mem_eventsAll es depth]

end

-- From the first tag of a message to its last.
theorem Intake.takes_message {Draft Record : Type} {a : Assembler Draft Record} {depth : Nat}
    (m : Message) {rs : List Record}
    (h : List.Forall₂ (fun fields r => a.assemble fields = .ok r) (m.dataset.getD []) rs) :
    Takes a {} (events depth m.toElement) rs
      ⟨.finished, recorded (fun _ => none) m.header, recorded (fun _ => none) m.operation⟩ := by
  refine (takes_iff_isDocument (done_not_mem_events _ depth)).mpr
    ⟨blocksOf m, isDocument_blocksOf m, ?_⟩
  cases hm : m.dataset <;> rw [hm] at h <;>
    simpa [blocksOf, Block.results, Block.headerFields, Block.operationFields, Part.results,
      Part.operationFields, hm, Assembler.Makes] using h

end ReportExchange
