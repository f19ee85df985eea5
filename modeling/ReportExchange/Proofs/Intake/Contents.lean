import Mathlib.Data.List.Forall2
import ReportExchange.Proofs.Envelope
import ReportExchange.Proofs.Intake.Grammar
import ReportExchange.Proofs.Success

namespace ReportExchange

namespace Assembler

variable {Draft Record : Type}

-- The record of one result, with its fields in their order.
def assemble (a : Assembler Draft Record) (fields : Fields) : Except FieldFault Record :=
  (fields.foldlM (fun draft f => a.field draft f.1 f.2) a.blank).map a.finish

-- No field is refused, whatever has been read before it.
def Accepting (a : Assembler Draft Record) : Prop :=
  ∀ draft tag text, (a.field draft tag text).isOk

theorem Accepting.exists_assemble {a : Assembler Draft Record} (h : a.Accepting) (fields : Fields) :
    ∃ r, a.assemble fields = .ok r := by
  have hf : ∀ draft, ∃ draft', fields.foldlM (fun d f => a.field d f.1 f.2) draft = .ok draft' := by
    induction fields
    case nil => exact fun draft => ⟨draft, rfl⟩
    case cons f fields hi =>
      intro draft
      obtain ⟨mid, hm⟩ := exists_eq_ok (h draft f.1 f.2)
      obtain ⟨draft', hd⟩ := hi mid
      exact ⟨draft', by rw [List.foldlM_cons]; exact bind_eq_ok.mpr ⟨mid, hm, hd⟩⟩
  obtain ⟨draft, hd⟩ := hf a.blank
  exact ⟨a.finish draft, map_eq_ok.mpr ⟨draft, hd, rfl⟩⟩

-- One record for every result, in their order.
def Makes (a : Assembler Draft Record) (results : List Fields) (records : List Record) : Prop :=
  List.Forall₂ (fun fields r => a.assemble fields = .ok r) results records

theorem Accepting.exists_makes {a : Assembler Draft Record} (h : a.Accepting)
    (results : List Fields) : ∃ records, a.Makes results records :=
  exists_forall₂ fun fields _ => h.exists_assemble fields

end Assembler

-- What has been read of a message.
structure Contents (Record : Type) where
  header    : HeaderField → Option String := fun _ => none
  operation : OperationField → Option String := fun _ => none
  records   : List Record := []

namespace Contents

open Grammar

variable {Draft Record : Type} {a : Assembler Draft Record} {c c' : Contents Record}

def noteHeader (c : Contents Record) (f : HeaderField × String) :
    Except FieldFault (Contents Record) :=
  .ok { c with header := recorded c.header [f] }

def noteOperation (c : Contents Record) (f : OperationField × String) :
    Except FieldFault (Contents Record) :=
  .ok { c with operation := recorded c.operation [f] }

def noteResult (a : Assembler Draft Record) (c : Contents Record) (fields : Fields) :
    Except FieldFault (Contents Record) :=
  (a.assemble fields).map fun r => { c with records := c.records ++ [r] }

def notePart (a : Assembler Draft Record) (c : Contents Record) :
    Part → Except FieldFault (Contents Record)
  | .operation fields => fields.foldlM noteOperation c
  | .dataset results  => results.foldlM (noteResult a) c

def noteBlock (a : Assembler Draft Record) (c : Contents Record) :
    Block → Except FieldFault (Contents Record)
  | .header fields => fields.foldlM noteHeader c
  | .payload parts => parts.foldlM (notePart a) c

-- What some more fields and results make of the contents.
def Extends (a : Assembler Draft Record) (header : List (HeaderField × String))
    (operation : List (OperationField × String)) (results : List Fields)
    (c c' : Contents Record) : Prop :=
  ∃ rs, a.Makes results rs ∧
    c' = ⟨recorded c.header header, recorded c.operation operation, c.records ++ rs⟩

theorem extends_nil_iff : Extends a [] [] [] c c' ↔ c' = c := by
  simp [Extends, Assembler.Makes, recorded]

theorem extends_append_iff {c'' : Contents Record} {h₁ h₂ : List (HeaderField × String)}
    {o₁ o₂ : List (OperationField × String)} {r₁ r₂ : List Fields} :
    Extends a (h₁ ++ h₂) (o₁ ++ o₂) (r₁ ++ r₂) c c'' ↔
      ∃ c', Extends a h₁ o₁ r₁ c c' ∧ Extends a h₂ o₂ r₂ c' c'' := by
  constructor
  case mp =>
    rintro ⟨rs, hr, rfl⟩
    have h₁ := (List.forall₂_take_append rs r₁ r₂ hr.flip).flip
    have h₂ := (List.forall₂_drop_append rs r₁ r₂ hr.flip).flip
    refine ⟨_, ⟨_, h₁, rfl⟩, ⟨_, h₂, ?_⟩⟩
    rw [recorded_append, recorded_append, List.append_assoc, List.take_append_drop]
  case mpr =>
    rintro ⟨_, ⟨rs, hr, rfl⟩, ⟨ss, hs, rfl⟩⟩
    refine ⟨rs ++ ss, List.rel_append hr hs, ?_⟩
    rw [recorded_append, recorded_append, List.append_assoc]

theorem flatMap_nothing {α β : Type} (xs : List α) : xs.flatMap (fun _ => ([] : List β)) = [] :=
  List.flatMap_eq_nil_iff.mpr fun _ _ => rfl

-- Items that each add something of their own add all of it in their order.
theorem foldlM_eq_ok_iff {α : Type}
    {note : Contents Record → α → Except FieldFault (Contents Record)}
    {header : α → List (HeaderField × String)} {operation : α → List (OperationField × String)}
    {results : α → List Fields}
    (h : ∀ c x c', note c x = .ok c' ↔ Extends a (header x) (operation x) (results x) c c')
    {xs : List α} :
    xs.foldlM note c = .ok c' ↔
      Extends a (xs.flatMap header) (xs.flatMap operation) (xs.flatMap results) c c' := by
  induction xs generalizing c
  case nil =>
    rw [List.flatMap_nil, List.flatMap_nil, List.flatMap_nil, extends_nil_iff, eq_comm]
    exact ⟨Except.ok.inj, congrArg _⟩
  case cons x xs hi =>
    rw [List.foldlM_cons, bind_eq_ok, List.flatMap_cons, List.flatMap_cons, List.flatMap_cons,
      extends_append_iff]
    exact exists_congr fun mid => and_congr (h c x mid) hi

theorem noteHeader_eq_ok_iff (c : Contents Record) (f : HeaderField × String)
    (c' : Contents Record) :
    noteHeader c f = .ok c' ↔ Extends a [f] [] [] c c' := by
  simp [noteHeader, Extends, Assembler.Makes, recorded, eq_comm]

theorem noteOperation_eq_ok_iff (c : Contents Record) (f : OperationField × String)
    (c' : Contents Record) :
    noteOperation c f = .ok c' ↔ Extends a [] [f] [] c c' := by
  simp [noteOperation, Extends, Assembler.Makes, recorded, eq_comm]

theorem noteResult_eq_ok_iff (c : Contents Record) (fields : Fields) (c' : Contents Record) :
    noteResult a c fields = .ok c' ↔ Extends a [] [] [fields] c c' := by
  rw [noteResult, map_eq_ok, Extends]
  constructor
  case mp  => rintro ⟨r, hr, rfl⟩; exact ⟨[r], .cons hr .nil, rfl⟩
  case mpr => rintro ⟨rs, _ | ⟨hr, _ | _⟩, rfl⟩; exact ⟨_, hr, rfl⟩

theorem notePart_eq_ok_iff (c : Contents Record) (p : Part) (c' : Contents Record) :
    notePart a c p = .ok c' ↔ Extends a [] p.operationFields p.results c c' := by
  cases p
  case operation fields =>
    have h : fields.foldlM noteOperation c = .ok c' ↔ _ :=
      foldlM_eq_ok_iff (noteOperation_eq_ok_iff (a := a))
    rwa [flatMap_nothing, flatMap_nothing, List.flatMap_singleton'] at h
  case dataset results =>
    have h : results.foldlM (noteResult a) c = .ok c' ↔ _ :=
      foldlM_eq_ok_iff noteResult_eq_ok_iff
    rwa [flatMap_nothing, flatMap_nothing, List.flatMap_singleton'] at h

theorem noteBlock_eq_ok_iff (c : Contents Record) (b : Block) (c' : Contents Record) :
    noteBlock a c b = .ok c' ↔ Extends a b.headerFields b.operationFields b.results c c' := by
  cases b
  case header fields =>
    have h : fields.foldlM noteHeader c = .ok c' ↔ _ :=
      foldlM_eq_ok_iff (noteHeader_eq_ok_iff (a := a))
    rwa [flatMap_nothing, flatMap_nothing, List.flatMap_singleton'] at h
  case payload parts =>
    have h : parts.foldlM (notePart a) c = .ok c' ↔ _ :=
      foldlM_eq_ok_iff notePart_eq_ok_iff
    rwa [flatMap_nothing] at h

end Contents

end ReportExchange
