import ReportExchange.Proofs.Intake.Ahead
import ReportExchange.Proofs.Intake.Contents
import ReportExchange.Proofs.Intake.Takes

namespace ReportExchange

open Text Xml Grammar

namespace Intake

section Places

variable {Draft Record : Type} (a : Assembler Draft Record) (final : Contents Record)

-- Behind the message there may only be blanks, and it has said what it had to.
def AfterMessage (c : Contents Record) (ts : List Token) : Prop :=
  Elements IsMessage ts [] ∧ c = final

def InMessage : Contents Record → List Token → Prop :=
  Inside IsBlock (Contents.noteBlock a) (AfterMessage final)

def InHeader : Contents Record → List Token → Prop :=
  Inside (IsField HeaderField.tag) Contents.noteHeader (InMessage a final)

def InPayload : Contents Record → List Token → Prop :=
  Inside IsPart (Contents.notePart a) (InMessage a final)

def InOperation : Contents Record → List Token → Prop :=
  Inside (IsField OperationField.tag) Contents.noteOperation (InPayload a final)

def InDataset : Contents Record → List Token → Prop :=
  Inside IsResult (Contents.noteResult a) (InPayload a final)

def InResult (c : Contents Record) : Draft → List Token → Prop :=
  Inside (IsField id) (fun draft f => a.field draft f.1 f.2) fun draft =>
    InDataset a final { c with records := c.records ++ [a.finish draft] }

def contents (i : Intake Draft) (given : List Record) : Contents Record :=
  ⟨i.header, i.operation, given⟩

-- What a place still awaits for a message to come to an end with some contents.
def Awaits (i : Intake Draft) (given : List Record) : List Token → Prop :=
  let c := i.contents given
  match i.place with
  | .start     => fun ts => ∃ blocks, IsDocument ts blocks ∧
      blocks.foldlM (Contents.noteBlock a) c = .ok final
  | .message   => InMessage a final c
  | .header    => InHeader a final c
  | .headerField f text => InsideField Contents.noteHeader (InHeader a final) f text c
  | .payload   => InPayload a final c
  | .operation => InOperation a final c
  | .operationField f text => InsideField Contents.noteOperation (InOperation a final) f text c
  | .dataset   => InDataset a final c
  | .result draft => InResult a final c draft
  | .field draft tag text =>
    InsideField (fun draft f => a.field draft f.1 f.2) (InResult a final c) tag text draft
  | .finished  => AfterMessage final c
  | .failed    => fun _ => False

end Places

variable {Draft Record : Type} {a : Assembler Draft Record} {final : Contents Record}
variable {i : Intake Draft} {given : List Record} {t : Token} {ts : List Token}

-- A field is open, which takes any text.
def Place.isLeaf : Place Draft → Bool
  | .headerField _ _ | .operationField _ _ | .field _ _ _ => true
  | _ => false

-- The machine on tokens.
def read (a : Assembler Draft Record) (i : Intake Draft) :
    Token → Except IntakeFault (Intake Draft × Option Record)
  | .opening tag => (i.opened a tag).map fun i => (i, none)
  | .closing     => i.closed a
  | .text s      => (i.pushed s).map fun i => (i, none)

-- The machine takes a token, and after it there comes what is then awaited.
def Goes (a : Assembler Draft Record) (final : Contents Record) (i : Intake Draft)
    (given : List Record) (t : Token) (ts : List Token) : Prop :=
  ∃ i' r, i.read a t = .ok (i', r) ∧ i'.Awaits a final (given ++ r.toList) ts

theorem goes_opening_iff {tag : String} :
    i.Goes a final given (.opening tag) ts ↔
      ∃ i', i.opened a tag = .ok i' ∧ i'.Awaits a final given ts := by
  simp [Goes, read, map_eq_ok]

theorem goes_closing_iff (i' : Intake Draft) (h : i.closed a = .ok (i', none)) :
    i.Goes a final given .closing ts ↔ i'.Awaits a final given ts := by
  simp [Goes, read, h]

theorem pushed_of_not_isLeaf {s : String} (h : i.place.isLeaf = false) :
    i.pushed s = if allBlank s then .ok i else .error .unexpectedText := by
  rw [pushed]
  split
  case h_1 hp => rw [hp] at h; cases h
  case h_2 hp => rw [hp] at h; cases h
  case h_3 hp => rw [hp] at h; cases h
  case h_4    => rfl

theorem goes_text_iff {s : String} (h : i.place.isLeaf = false) :
    i.Goes a final given (.text s) ts ↔ allBlank s ∧ i.Awaits a final given ts := by
  rw [Goes, read, pushed_of_not_isLeaf h]
  split
  case isTrue hb  => simp [hb, Except.map]
  case isFalse hb => simp [hb, Except.map]

section Levels

variable {α κ σ : Type} {next : σ → List Token → Prop} {s : σ}

-- One token inside an element that encloses others.
theorem inside_cons_iff {Content : String → List Token → α → Prop}
    {note : σ → α → Except FieldFault σ} (hl : i.place.isLeaf = false)
    (hi : i.Awaits a final given = Inside Content note next s)
    (ho : ∀ tag, Upto (Content tag) note (Inside Content note next) s ts ↔
      ∃ i', i.opened a tag = .ok i' ∧ i'.Awaits a final given ts)
    (hc : next s ts ↔ i.Goes a final given .closing ts) :
    i.Awaits a final given (t :: ts) ↔ i.Goes a final given t ts := by
  rw [hi]
  cases t
  case closing     => exact inside_closing_iff.trans hc
  case text        => rw [inside_text_iff, goes_text_iff hl, hi]
  case opening tag => exact inside_opening_iff.trans ((ho tag).trans goes_opening_iff.symm)

-- One token inside a field.
theorem insideField_cons_iff (note : σ → κ × String → Except FieldFault σ)
    (next : σ → List Token → Prop) (k : κ) (s : σ) (leaf : String → Intake Draft) {text : String}
    (hi : ∀ text, (leaf text).Awaits a final given = InsideField note next k text s)
    (ho : ∀ tag, (leaf text).opened a tag = .error (.unexpectedTag tag))
    (hp : ∀ s, (leaf text).pushed s = .ok (leaf (text ++ s)))
    (hc : (∃ s', note s (k, text) = .ok s' ∧ next s' ts) ↔
      (leaf text).Goes a final given .closing ts) :
    (leaf text).Awaits a final given (t :: ts) ↔ (leaf text).Goes a final given t ts := by
  rw [hi]
  cases t
  case closing     => exact insideField_closing_iff.trans hc
  case text s      => rw [insideField_text_iff, Goes, read, hp, ← hi]; simp [Except.map]
  case opening tag =>
    rw [goes_opening_iff, ho]
    exact iff_of_false not_insideField_opening (by rintro ⟨_, h, _⟩; cases h)

end Levels

section Openings

variable {header : HeaderField → Option String} {operation : OperationField → Option String}
variable {draft : Draft} {tag : String}

-- One of two elements begins, or there is a fault.
theorem exists_choice_iff {ε α : Type} {p q : Prop} [Decidable p] [Decidable q] (h : p → ¬q)
    {x y : α} {e : ε} {P : α → Prop} :
    (∃ z, (if p then .ok x else if q then .ok y else .error e : Except ε α) = .ok z ∧ P z) ↔
      p ∧ P x ∨ q ∧ P y := by
  by_cases hp : p
  case pos => simp [hp, h hp]
  case neg => by_cases hq : q <;> simp [hp, hq]

theorem start_opening_iff :
    (∃ blocks, IsDocument (.opening tag :: ts) blocks ∧
      blocks.foldlM (Contents.noteBlock a) ⟨header, operation, given⟩ = .ok final) ↔
      ∃ i', (⟨.start, header, operation⟩ : Intake Draft).opened a tag = .ok i' ∧
        i'.Awaits a final given ts := by
  have ho : (∃ i', (⟨.start, header, operation⟩ : Intake Draft).opened a tag = .ok i' ∧
      i'.Awaits a final given ts) ↔
        tag = Tag.message ∧ InMessage a final ⟨header, operation, given⟩ ts := by
    by_cases h : tag = Tag.message <;> simp [h, opened, Awaits, moved, contents]
  rw [ho]
  constructor
  case mp =>
    rintro ⟨blocks, hd, hn⟩
    obtain ⟨us, _, vs, _, e, ⟨ht, hb⟩, hv, hx⟩ := elements_opening_iff.mp hd
    cases hx
    exact ⟨ht, us, blocks, vs, final, e, hb, hn, hv, rfl⟩
  case mpr =>
    rintro ⟨ht, us, blocks, vs, c', rfl, hb, hn, hv, rfl⟩
    exact ⟨blocks, .cons ⟨ht, hb⟩ hv, hn⟩

theorem message_opening_iff :
    Upto (IsBlock tag) (Contents.noteBlock a) (InMessage a final) ⟨header, operation, given⟩ ts ↔
      ∃ i', (⟨.message, header, operation⟩ : Intake Draft).opened a tag = .ok i' ∧
        i'.Awaits a final given ts := by
  have hne : tag = Tag.header → tag ≠ Tag.payload := by rintro rfl; decide
  rw [opened, exists_choice_iff hne]
  constructor
  case mp =>
    rintro ⟨us, x, vs, c', e, hb, hn, hx⟩
    cases hb
    case header fields hf => exact .inl ⟨rfl, us, fields, vs, c', e, hf, hn, hx⟩
    case payload parts hp => exact .inr ⟨rfl, us, parts, vs, c', e, hp, hn, hx⟩
  case mpr =>
    rintro (⟨rfl, us, fields, vs, c', e, hf, hn, hx⟩ | ⟨rfl, us, parts, vs, c', e, hp, hn, hx⟩)
    case inl => exact ⟨us, .header fields, vs, c', e, .header hf, hn, hx⟩
    case inr => exact ⟨us, .payload parts, vs, c', e, .payload hp, hn, hx⟩

theorem payload_opening_iff :
    Upto (IsPart tag) (Contents.notePart a) (InPayload a final) ⟨header, operation, given⟩ ts ↔
      ∃ i', (⟨.payload, header, operation⟩ : Intake Draft).opened a tag = .ok i' ∧
        i'.Awaits a final given ts := by
  have hne : tag = Tag.operation → tag ≠ Tag.dataset := by rintro rfl; decide
  rw [opened, exists_choice_iff hne]
  constructor
  case mp =>
    rintro ⟨us, x, vs, c', e, hp, hn, hx⟩
    cases hp
    case operation fields hf => exact .inl ⟨rfl, us, fields, vs, c', e, hf, hn, hx⟩
    case dataset results hr  => exact .inr ⟨rfl, us, results, vs, c', e, hr, hn, hx⟩
  case mpr =>
    rintro (⟨rfl, us, fields, vs, c', e, hf, hn, hx⟩ | ⟨rfl, us, results, vs, c', e, hr, hn, hx⟩)
    case inl => exact ⟨us, .operation fields, vs, c', e, .operation hf, hn, hx⟩
    case inr => exact ⟨us, .dataset results, vs, c', e, .dataset hr, hn, hx⟩

-- A result is assembled while its fields are read.
theorem dataset_opening_iff :
    Upto (IsResult tag) (Contents.noteResult a) (InDataset a final) ⟨header, operation, given⟩ ts ↔
      ∃ i', (⟨.dataset, header, operation⟩ : Intake Draft).opened a tag = .ok i' ∧
        i'.Awaits a final given ts := by
  have ho : (∃ i', (⟨.dataset, header, operation⟩ : Intake Draft).opened a tag = .ok i' ∧
      i'.Awaits a final given ts) ↔
        tag = Tag.result ∧ InResult a final ⟨header, operation, given⟩ a.blank ts := by
    by_cases h : tag = Tag.result <;> simp [h, opened, Awaits, moved, contents]
  rw [ho]
  constructor
  case mp =>
    rintro ⟨us, fields, vs, c', e, ⟨ht, hf⟩, hn, hx⟩
    obtain ⟨r, hr, rfl⟩ := map_eq_ok.mp hn
    obtain ⟨draft, hd, rfl⟩ := map_eq_ok.mp hr
    exact ⟨ht, us, fields, vs, draft, e, hf, hd, hx⟩
  case mpr =>
    rintro ⟨ht, us, fields, vs, draft, e, hf, hd, hx⟩
    have hr : a.assemble fields = .ok (a.finish draft) := map_eq_ok.mpr ⟨draft, hd, rfl⟩
    exact ⟨us, fields, vs, _, e, ⟨ht, hf⟩, map_eq_ok.mpr ⟨_, hr, rfl⟩, hx⟩

theorem header_opening_iff :
    Upto (IsField HeaderField.tag tag) Contents.noteHeader (InHeader a final)
      ⟨header, operation, given⟩ ts ↔
      ∃ i', (⟨.header, header, operation⟩ : Intake Draft).opened a tag = .ok i' ∧
        i'.Awaits a final given ts := by
  rw [upto_isField_iff]
  simp only [← HeaderField.read_eq_ok_iff, opened]
  cases HeaderField.read tag <;> simp [Awaits, moved, contents]

theorem operation_opening_iff :
    Upto (IsField OperationField.tag tag) Contents.noteOperation (InOperation a final)
      ⟨header, operation, given⟩ ts ↔
      ∃ i', (⟨.operation, header, operation⟩ : Intake Draft).opened a tag = .ok i' ∧
        i'.Awaits a final given ts := by
  rw [upto_isField_iff]
  simp only [← OperationField.read_eq_ok_iff, opened]
  cases OperationField.read tag <;> simp [Awaits, moved, contents]

theorem result_opening_iff :
    Upto (IsField id tag) (fun draft f => a.field draft f.1 f.2)
      (InResult a final ⟨header, operation, given⟩) draft ts ↔
      ∃ i', (⟨.result draft, header, operation⟩ : Intake Draft).opened a tag = .ok i' ∧
        i'.Awaits a final given ts := by
  rw [upto_isField_iff]
  simp [opened, Awaits, moved, contents]

end Openings

-- One step of the machine takes what was awaited, and what is left of that is awaited after it.
theorem awaits_cons_iff : i.Awaits a final given (t :: ts) ↔ i.Goes a final given t ts := by
  obtain ⟨place, header, operation⟩ := i
  cases place
  case start =>
    cases t
    case closing     => simp [Awaits, Goes, read, closed, IsDocument, not_elements_closing]
    case text s      =>
      rw [goes_text_iff rfl]
      simp [Awaits, IsDocument, elements_text_iff, and_assoc]
    case opening tag => exact start_opening_iff.trans goes_opening_iff.symm
  case message =>
    exact inside_cons_iff rfl rfl (fun _ => message_opening_iff)
      (goes_closing_iff ⟨.finished, header, operation⟩ rfl).symm
  case header =>
    exact inside_cons_iff rfl rfl (fun _ => header_opening_iff)
      (goes_closing_iff ⟨.message, header, operation⟩ rfl).symm
  case payload =>
    exact inside_cons_iff rfl rfl (fun _ => payload_opening_iff)
      (goes_closing_iff ⟨.message, header, operation⟩ rfl).symm
  case operation =>
    exact inside_cons_iff rfl rfl (fun _ => operation_opening_iff)
      (goes_closing_iff ⟨.payload, header, operation⟩ rfl).symm
  case dataset =>
    exact inside_cons_iff rfl rfl (fun _ => dataset_opening_iff)
      (goes_closing_iff ⟨.payload, header, operation⟩ rfl).symm
  case result draft =>
    refine inside_cons_iff rfl rfl (fun _ => result_opening_iff) ?_
    simp [Goes, read, closed, Awaits, moved, contents]
  case headerField f text =>
    refine insideField_cons_iff Contents.noteHeader (InHeader a final) f ⟨header, operation, given⟩
      (⟨.headerField f ·, header, operation⟩) (fun _ => rfl) (fun _ => rfl) (fun _ => rfl) ?_
    simp [Goes, read, closed, Awaits, moved, contents, Contents.noteHeader, recorded]
  case operationField f text =>
    refine insideField_cons_iff Contents.noteOperation (InOperation a final) f
      ⟨header, operation, given⟩ (⟨.operationField f ·, header, operation⟩) (fun _ => rfl)
      (fun _ => rfl) (fun _ => rfl) ?_
    simp [Goes, read, closed, Awaits, moved, contents, Contents.noteOperation, recorded]
  case field draft tag text =>
    refine insideField_cons_iff (fun draft f => a.field draft f.1 f.2)
      (InResult a final ⟨header, operation, given⟩) tag draft
      (⟨.field draft tag ·, header, operation⟩) (fun _ => rfl) (fun _ => rfl) (fun _ => rfl) ?_
    simp only [Goes, read, closed]
    cases a.field draft tag text <;> simp [Awaits, moved, contents]
  case finished =>
    cases t
    case closing     => simp [Awaits, Goes, read, closed, AfterMessage, not_elements_closing]
    case text s      =>
      rw [goes_text_iff rfl]
      simp [Awaits, AfterMessage, elements_text_iff, and_assoc]
    case opening tag => simp [goes_opening_iff, opened, Awaits, AfterMessage, elements_opening_iff]
  case failed =>
    cases t
    case closing     => simp [Awaits, Goes, read, closed]
    case text s      => rw [goes_text_iff rfl]; simp [Awaits]
    case opening tag => simp [goes_opening_iff, opened, Awaits]

theorem awaits_nil_iff :
    i.Awaits a final given [] ↔ i.place = .finished ∧ i.contents given = final := by
  obtain ⟨place, header, operation⟩ := i
  cases place
  case start    => simp [Awaits, IsDocument, elements_nil_iff]
  case finished => simp [Awaits, AfterMessage, elements_nil_iff]
  case failed   => simp [Awaits]
  case headerField    => simp [Awaits, not_insideField_nil]
  case operationField => simp [Awaits, not_insideField_nil]
  case field          => simp [Awaits, not_insideField_nil]
  all_goals exact iff_of_false not_upto_nil nofun

-- An event does what its tokens do.
theorem awaits_tokens_iff {e : Event} (h : e ≠ .done) :
    i.Awaits a final given (e.tokens ++ ts) ↔
      ∃ i' r, i.take a e = .ok (i', r) ∧ i'.Awaits a final (given ++ r.toList) ts := by
  cases e
  case opening tag => exact awaits_cons_iff
  case closing     => exact awaits_cons_iff
  case text s      => exact awaits_cons_iff
  case cdata s     => exact awaits_cons_iff
  case aside       => simp [Event.tokens, take]
  case done        => exact absurd rfl h
  case empty tag =>
    rw [Event.tokens, List.cons_append, List.cons_append, List.nil_append, awaits_cons_iff,
      goes_opening_iff]
    simp only [awaits_cons_iff, Goes, read, take, Except.bind]
    cases i.opened a tag <;> simp

-- What the machine awaits from some place is what it gets through from there to the end.
theorem awaits_iff_takes {es : List Event} (hd : .done ∉ es) (i : Intake Draft)
    (given : List Record) (final : Contents Record) :
    i.Awaits a final given (es.flatMap Event.tokens) ↔
      ∃ rs i', Takes a i es rs i' ∧ i'.place = .finished ∧ i'.contents (given ++ rs) = final := by
  induction es generalizing i given
  case nil =>
    rw [List.flatMap_nil, awaits_nil_iff]
    constructor
    case mp  => exact fun h => ⟨[], i, .nil, by rwa [List.append_nil]⟩
    case mpr => rintro ⟨_, _, ⟨⟩, h⟩; rwa [List.append_nil] at h
  case cons e es hi =>
    rw [List.mem_cons, not_or] at hd
    rw [List.flatMap_cons, awaits_tokens_iff (Ne.symm hd.1)]
    simp only [hi hd.2, takes_cons_iff]
    constructor
    case mp =>
      rintro ⟨mid, r, ht, rs, i', hs, hf, hc⟩
      exact ⟨_, i', ⟨Ne.symm hd.1, mid, r, rs, ht, hs, rfl⟩, hf, by rwa [← List.append_assoc]⟩
    case mpr =>
      rintro ⟨_, i', ⟨_, mid, r, rs, ht, hs, rfl⟩, hf, hc⟩
      exact ⟨mid, r, ht, rs, i', hs, hf, by rwa [List.append_assoc]⟩

-- The machine gets through a document, and through nothing else, whose results all give records.
theorem takes_iff_isDocument {es : List Event} {rs : List Record}
    {header : HeaderField → Option String} {operation : OperationField → Option String}
    (hd : .done ∉ es) :
    Takes a {} es rs ⟨.finished, header, operation⟩ ↔
      ∃ blocks, IsDocument (es.flatMap Event.tokens) blocks ∧
        a.Makes (blocks.flatMap (·.results)) rs ∧
        header = recorded (fun _ => none) (blocks.flatMap (·.headerFields)) ∧
        operation = recorded (fun _ => none) (blocks.flatMap (·.operationFields)) := by
  have h : (∃ blocks, IsDocument (es.flatMap Event.tokens) blocks ∧
      blocks.foldlM (Contents.noteBlock a) {} = .ok ⟨header, operation, rs⟩) ↔
        ∃ ss i', Takes a {} es ss i' ∧ i'.place = .finished ∧
          i'.contents ss = ⟨header, operation, rs⟩ :=
    awaits_iff_takes hd {} [] ⟨header, operation, rs⟩
  have ht : (∃ ss i', Takes a {} es ss i' ∧ i'.place = .finished ∧
      i'.contents ss = ⟨header, operation, rs⟩) ↔
        Takes a {} es rs ⟨.finished, header, operation⟩ := by
    constructor
    case mp  => rintro ⟨ss, ⟨_, _, _⟩, ht, rfl, ⟨⟩⟩; exact ht
    case mpr => exact fun ht => ⟨rs, _, ht, rfl, rfl⟩
  rw [← ht, ← h]
  simp only [Contents.foldlM_eq_ok_iff Contents.noteBlock_eq_ok_iff, Contents.Extends]
  refine exists_congr fun blocks => and_congr_right fun _ => ?_
  constructor
  case mp  => rintro ⟨_, hm, ⟨⟩⟩; exact ⟨hm, rfl, rfl⟩
  case mpr => rintro ⟨hm, rfl, rfl⟩; exact ⟨rs, hm, rfl⟩

end Intake

end ReportExchange
