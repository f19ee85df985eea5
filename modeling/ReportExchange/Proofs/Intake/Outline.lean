import ReportExchange.Proofs.Intake.Awaits

namespace ReportExchange

open Text Xml Grammar

namespace Grammar

-- The elements that some tokens begin and end. An element that has ended stands with its path, its
-- own name first, and with what it encloses. One that is open has its name and its content so far.
structure Outline where
  ended  : List (List String × List Token) := []
  opened : List (String × List Token) := []

namespace Outline

variable {o : Outline} {t : Token} {ts us : List Token} {tag : String}

def grown (t : Token) (opened : List (String × List Token)) : List (String × List Token) :=
  opened.map fun e => (e.1, e.2 ++ [t])

def path (o : Outline) : List String :=
  o.opened.map (·.1)

-- Every token belongs to all elements that are open around it. The end of an element that has not
-- begun is passed over.
def add (o : Outline) : Token → Outline
  | .opening tag => ⟨o.ended, (tag, []) :: grown (.opening tag) o.opened⟩
  | .text s      => ⟨o.ended, grown (.text s) o.opened⟩
  | .closing     =>
    match o.opened with
    | []          => o
    | e :: opened => ⟨o.ended ++ [(o.path, e.2)], grown .closing opened⟩

def of (ts : List Token) : Outline :=
  ts.foldl add {}

-- Where the results of a message stand.
def resultPath : List String :=
  [Tag.result, Tag.dataset, Tag.payload, Tag.message]

-- What is enclosed by the results that have ended.
def results (o : Outline) : List (List Token) :=
  (o.ended.filter (·.1 = resultPath)).map (·.2)

def MessageEnded (o : Outline) : Prop :=
  [Tag.message] ∈ o.ended.map (·.1)

-- Whether one more element that has ended is a result is said by its path.
theorem results_ended {ended : List (List String × List Token)}
    (opened opened' : List (String × List Token)) (path : List String) (ts : List Token) :
    results ⟨ended ++ [(path, ts)], opened⟩ =
      results ⟨ended, opened'⟩ ++ if path = resultPath then [ts] else [] := by
  by_cases h : path = resultPath <;> simp [results, h]

theorem path_grown (t : Token) (opened : List (String × List Token)) :
    (grown t opened).map (·.1) = opened.map (·.1) := by
  simp [grown]

end Outline

theorem Texts.snoc {ts : List Token} {text : String} (h : Texts ts text) (s : String) :
    Texts (ts ++ [.text s]) (text ++ s) := by
  induction h
  case nil       => simpa using Texts.cons (s := s) .nil
  case cons _ hi => rw [String.append_assoc]; exact .cons hi

end Grammar

namespace Intake

open Outline

variable {Draft Record : Type} {a : Assembler Draft Record} {i i' : Intake Draft}
variable {given : List Record} {o : Outline} {tag : String}

-- The names of the elements that are open, the innermost first.
def Place.path : Place Draft → List String
  | .start | .finished | .failed => []
  | .message            => [Tag.message]
  | .header             => [Tag.header, Tag.message]
  | .headerField f _    => [f.tag, Tag.header, Tag.message]
  | .payload            => [Tag.payload, Tag.message]
  | .operation          => [Tag.operation, Tag.payload, Tag.message]
  | .operationField f _ => [f.tag, Tag.operation, Tag.payload, Tag.message]
  | .dataset            => [Tag.dataset, Tag.payload, Tag.message]
  | .result _           => resultPath
  | .field _ tag _      => tag :: resultPath

-- A record is made of the whole content of one result.
def IsRecordOf (a : Assembler Draft Record) (ts : List Token) (r : Record) : Prop :=
  ∃ fields, Elements (IsField id) ts fields ∧ a.assemble fields = .ok r

-- The part of a result that has been read is in its draft.
def IsDraftOf (a : Assembler Draft Record) (ts : List Token) (draft : Draft) : Prop :=
  ∃ fields : Fields, Elements (IsField id) ts fields ∧
    fields.foldlM (fun draft f => a.field draft f.1 f.2) a.blank = .ok draft

-- What a place says of the elements around it, beyond their names.
def Place.Matches (a : Assembler Draft Record) (o : Outline) : Place Draft → Prop
  | .result draft => ∃ ts around, o.opened = (Tag.result, ts) :: around ∧ IsDraftOf a ts draft
  | .field draft tag text => ∃ ts us around,
      o.opened = (tag, us) :: (Tag.result, ts ++ .opening tag :: us) :: around ∧
        IsDraftOf a ts draft ∧ Texts us text
  | .finished => o.MessageEnded
  | _ => True

-- The machine stands where the elements end that have been read, and has given the records of the
-- results among them.
structure Follows (a : Assembler Draft Record) (i : Intake Draft) (given : List Record)
    (o : Outline) : Prop where
  path    : o.path = i.place.path
  place   : i.place.Matches a o
  records : List.Forall₂ (IsRecordOf a) o.results given

section Steps

variable {s : String} {r : Option Record}

-- An element that begins is a field of the result that is open, or a result, or one of the envelope.
theorem opened_cases (h : i.opened a tag = .ok i') :
    i'.place.path = tag :: i.place.path ∧
      ((∃ draft, i.place = .result draft ∧ i'.place = .field draft tag "") ∨
        (tag = Tag.result ∧ i'.place = .result a.blank) ∨ ∀ o, i'.place.Matches a o) := by
  obtain ⟨place, header, operation⟩ := i
  cases place <;> simp only [opened] at h
  case start =>
    split at h <;> cases h
    exact ⟨congrArg (· :: []) (Eq.symm ‹_›), .inr (.inr fun _ => trivial)⟩
  case message =>
    split at h
    case isTrue ht => cases h; exact ⟨ht ▸ rfl, .inr (.inr fun _ => trivial)⟩
    case isFalse =>
      split at h <;> cases h
      exact ⟨‹tag = _› ▸ rfl, .inr (.inr fun _ => trivial)⟩
  case payload =>
    split at h
    case isTrue ht => cases h; exact ⟨ht ▸ rfl, .inr (.inr fun _ => trivial)⟩
    case isFalse =>
      split at h <;> cases h
      exact ⟨‹tag = _› ▸ rfl, .inr (.inr fun _ => trivial)⟩
  case header =>
    split at h <;> cases h
    exact ⟨HeaderField.read_eq_ok_iff.mp ‹_› ▸ rfl, .inr (.inr fun _ => trivial)⟩
  case operation =>
    split at h <;> cases h
    exact ⟨OperationField.read_eq_ok_iff.mp ‹_› ▸ rfl, .inr (.inr fun _ => trivial)⟩
  case dataset =>
    split at h <;> cases h
    exact ⟨‹tag = _› ▸ rfl, .inr (.inl ⟨‹_›, rfl⟩)⟩
  case result draft => cases h; exact ⟨rfl, .inl ⟨draft, rfl, rfl⟩⟩
  all_goals cases h

-- The element that ends is the innermost one. It is a result, a field of one, the message, or another
-- one of the envelope, and only a result gives a record.
theorem closed_cases (h : i.closed a = .ok (i', r)) :
    (∃ name, i.place.path = name :: i'.place.path) ∧
      ((∃ draft, i.place = .result draft ∧ i'.place = .dataset ∧ r = some (a.finish draft)) ∨
        r = none ∧ i.place.path ≠ resultPath ∧
          ((∃ draft draft' tag text, i.place = .field draft tag text ∧ i'.place = .result draft' ∧
              a.field draft tag text = .ok draft') ∨
            i.place.path = [Tag.message] ∧ i'.place = .finished ∨ ∀ o, i'.place.Matches a o)) := by
  obtain ⟨place, header, operation⟩ := i
  cases place <;> simp only [closed] at h
  case field draft tag text =>
    split at h <;> cases h
    exact ⟨⟨_, rfl⟩, .inr ⟨rfl, by simp [Place.path, resultPath], .inl ⟨_, _, _, _, rfl, rfl, ‹_›⟩⟩⟩
  case result draft => cases h; exact ⟨⟨_, rfl⟩, .inl ⟨draft, rfl, rfl, rfl⟩⟩
  case message =>
    cases h
    exact ⟨⟨_, rfl⟩, .inr ⟨rfl, by simp [Place.path, resultPath], .inr (.inl ⟨rfl, rfl⟩)⟩⟩
  all_goals cases h
  all_goals
    exact ⟨⟨_, rfl⟩, .inr ⟨rfl, by simp [Place.path, resultPath, Tag.operation, Tag.dataset],
      .inr (.inr fun _ => trivial)⟩⟩

-- Text belongs to a field, or it is blank and changes nothing.
theorem pushed_cases (h : i.pushed s = .ok i') :
    i'.place.path = i.place.path ∧
      ((∃ draft tag text, i.place = .field draft tag text ∧ i'.place = .field draft tag (text ++ s)) ∨
        (allBlank s ∧ i.place.isLeaf = false ∧ i'.place = i.place) ∨
          ∀ o, i'.place.Matches a o) := by
  obtain ⟨place, header, operation⟩ := i
  cases place <;> simp only [pushed] at h
  case field draft tag text => cases h; exact ⟨rfl, .inl ⟨draft, tag, text, rfl, rfl⟩⟩
  case headerField => cases h; exact ⟨rfl, .inr (.inr fun _ => trivial)⟩
  case operationField => cases h; exact ⟨rfl, .inr (.inr fun _ => trivial)⟩
  all_goals
    split at h <;> cases h
    exact ⟨rfl, .inr (.inl ⟨‹_›, rfl, rfl⟩)⟩

end Steps

section Follow

variable {s : String} {r : Option Record} {ts us : List Token} {draft draft' : Draft}

theorem isDraftOf_blank : IsDraftOf a [] a.blank :=
  ⟨[], .nil, rfl⟩

theorem IsDraftOf.text (h : IsDraftOf a ts draft) (hb : allBlank s) :
    IsDraftOf a (ts ++ [.text s]) draft := by
  obtain ⟨fields, hf, hd⟩ := h
  have hs : Elements (IsField id) [.text s] ([] : Fields) := .blank hb .nil
  exact ⟨fields, by simpa using hf.append hs, hd⟩

-- A field that has ended has gone into the draft.
theorem IsDraftOf.field {text : String} (h : IsDraftOf a ts draft) (ht : Texts us text)
    (hf : a.field draft tag text = .ok draft') :
    IsDraftOf a (ts ++ .opening tag :: us ++ [.closing]) draft' := by
  obtain ⟨fields, he, hd⟩ := h
  have hc : Elements (IsField id) (.opening tag :: (us ++ [.closing])) [(tag, text)] :=
    .cons ⟨rfl, ht⟩ .nil
  refine ⟨fields ++ [(tag, text)], by simpa using he.append hc, ?_⟩
  rw [List.foldlM_append]
  exact bind_eq_ok.mpr ⟨draft, hd, bind_eq_ok.mpr ⟨draft', hf, rfl⟩⟩

theorem Follows.opening (h : Follows a i given o) (ho : i.opened a tag = .ok i') :
    Follows a i' given (o.add (.opening tag)) := by
  obtain ⟨hp, hcases⟩ := opened_cases ho
  refine ⟨?_, ?_, h.records⟩
  case refine_1 => rw [hp, ← h.path]; exact congrArg (tag :: ·) (path_grown ..)
  case refine_2 =>
    obtain ⟨draft, hi, hi'⟩ | ⟨rfl, hi'⟩ | hall := hcases
    case inr.inr => exact hall _
    case inr.inl => rw [hi']; exact ⟨[], _, rfl, isDraftOf_blank⟩
    case inl =>
      have hm := h.place
      rw [hi] at hm
      obtain ⟨ts, around, hopen, hd⟩ := hm
      rw [hi', Outline.add, hopen]
      exact ⟨ts, [], _, rfl, hd, .nil⟩

theorem Place.Matches.text {place : Place Draft} (h : place.Matches a o)
    (hl : place.isLeaf = false) (hb : allBlank s) : place.Matches a (o.add (.text s)) := by
  cases place
  case result draft =>
    obtain ⟨ts, around, hopen, hd⟩ := h
    rw [Outline.add, hopen]
    exact ⟨ts ++ [.text s], _, rfl, hd.text hb⟩
  case finished => exact h
  case field    => cases hl
  all_goals trivial

theorem Follows.text (h : Follows a i given o) (hp : i.pushed s = .ok i') :
    Follows a i' given (o.add (.text s)) := by
  obtain ⟨hpath, hcases⟩ := pushed_cases hp
  refine ⟨?_, ?_, h.records⟩
  case refine_1 => rw [hpath, ← h.path]; exact path_grown ..
  case refine_2 =>
    have hm := h.place
    obtain ⟨draft, tag, text, hi, hi'⟩ | ⟨hb, hl, hi'⟩ | hall := hcases
    case inr.inr => exact hall _
    case inr.inl => exact hi' ▸ hm.text hl hb
    case inl =>
      rw [hi] at hm
      obtain ⟨ts, us, around, hopen, hd, ht⟩ := hm
      rw [hi', Outline.add, hopen]
      exact ⟨ts, us ++ [.text s], grown (.text s) around, by simp [grown], hd, ht.snoc s⟩

-- Where the innermost element ends.
theorem Outline.add_closing {name : String} {path : List String} (h : o.path = name :: path) :
    ∃ ts around, o.opened = (name, ts) :: around ∧ around.map (·.1) = path ∧
      o.add .closing = ⟨o.ended ++ [(name :: path, ts)], grown .closing around⟩ := by
  obtain ⟨e, around, ho, rfl, rfl⟩ := List.map_eq_cons_iff.mp h
  exact ⟨e.2, around, ho, rfl, by simp only [add, ho, path, List.map_cons]⟩

theorem Follows.closing (h : Follows a i given o) (hc : i.closed a = .ok (i', r)) :
    Follows a i' (given ++ r.toList) (o.add .closing) := by
  obtain ⟨⟨name, hp⟩, hcases⟩ := closed_cases hc
  obtain ⟨ts, around, hopen, hpath, hadd⟩ := Outline.add_closing (h.path.trans hp)
  have hm := h.place
  rw [hadd]
  refine ⟨(path_grown ..).trans hpath, ?_, ?_⟩
  case refine_1 =>
    obtain ⟨draft, _, hi', _⟩ | ⟨_, _, ⟨draft, draft', tag, text, hi, hi', hf⟩ | ⟨hi, hi'⟩ | hall⟩ :=
      hcases
    case inl         => rw [hi']; trivial
    case inr.inr.inr => exact hall _
    case inr.inr.inl =>
      rw [← hp, hi, hi']
      exact List.mem_map_of_mem (f := Prod.fst) (List.mem_append_right _ List.mem_cons_self)
    case inr.inl =>
      rw [hi, Place.Matches, hopen] at hm
      obtain ⟨us, vs, beyond, ⟨⟩, hd, ht⟩ := hm
      rw [hi']
      exact ⟨_, grown .closing beyond, rfl, hd.field ht hf⟩
  case refine_2 =>
    rw [← hp]
    obtain ⟨draft, hi, _, rfl⟩ | ⟨rfl, hne, _⟩ := hcases
    case inr =>
      rw [results_ended _ o.opened, if_neg hne, List.append_nil, Option.toList_none,
        List.append_nil]
      exact h.records
    case inl =>
      rw [hi, Place.Matches, hopen] at hm
      obtain ⟨us, beyond, ⟨⟩, fields, he, hd⟩ := hm
      have hpath : i.place.path = resultPath := by rw [hi]; rfl
      rw [results_ended _ o.opened, if_pos hpath]
      have hr : IsRecordOf a ts (a.finish draft) := ⟨fields, he, map_eq_ok.mpr ⟨draft, hd, rfl⟩⟩
      exact List.rel_append h.records (.cons hr .nil)

theorem Follows.token {t : Token} (h : Follows a i given o) (hr : i.read a t = .ok (i', r)) :
    Follows a i' (given ++ r.toList) (o.add t) := by
  cases t
  case closing => exact h.closing hr
  case opening tag =>
    obtain ⟨_, ho, ⟨⟩⟩ := map_eq_ok.mp hr
    simpa using h.opening ho
  case text s =>
    obtain ⟨_, hp, ⟨⟩⟩ := map_eq_ok.mp hr
    simpa using h.text hp

theorem Follows.event {e : Event} (h : Follows a i given o) (ht : i.take a e = .ok (i', r)) :
    Follows a i' (given ++ r.toList) (e.tokens.foldl add o) := by
  cases e
  case opening tag => exact h.token (t := .opening tag) ht
  case closing     => exact h.token (t := .closing) ht
  case text s      => exact h.token (t := .text s) ht
  case cdata s     => exact h.token (t := .text s) ht
  case aside       => cases ht; simpa [Event.tokens] using h
  case done        => cases ht; simpa [Event.tokens] using h
  case empty tag   =>
    obtain ⟨mid, ho, hc⟩ := bind_eq_ok.mp ht
    exact (h.opening ho).closing hc

-- From the start on, the machine follows what it reads.
theorem Takes.follows {es : List Event} {rs : List Record} (h : Takes a i es rs i')
    (hf : Follows a i given o) :
    Follows a i' (given ++ rs) ((es.flatMap Event.tokens).foldl add o) := by
  induction h generalizing given o
  case nil => simpa using hf
  case silent ht _ hi =>
    rw [List.flatMap_cons, List.foldl_append]
    simpa using hi (hf.event ht)
  case record ht _ hi =>
    rw [List.flatMap_cons, List.foldl_append]
    simpa using hi (hf.event ht)

theorem follows_of_takes {es : List Event} {rs : List Record} (h : Takes a {} es rs i') :
    Follows a i' rs (Outline.of (es.flatMap Event.tokens)) := by
  have start : Follows a ({} : Intake Draft) [] {} := ⟨rfl, trivial, .nil⟩
  exact h.follows start

end Follow

end Intake

end ReportExchange
