import ReportExchange.Intake.Parser
import ReportExchange.Report.Walk

namespace ReportExchange

open Text

namespace Xml

-- Tags and texts, with nothing else between them.
inductive Token
  | opening (tag : String)
  | closing
  | text (value : String)
deriving DecidableEq, Repr

-- An empty tag begins an element and ends it. What stands beside the document is left out.
def Event.tokens : Event → List Token
  | .opening tag         => [.opening tag]
  | .empty tag           => [.opening tag, .closing]
  | .closing             => [.closing]
  | .text s | .cdata s   => [.text s]
  | .aside | .done       => []

end Xml

namespace Grammar

open Xml

variable {α κ : Type}

-- Any texts one after the other are the one text that they make up.
inductive Texts : List Token → String → Prop
  | nil : Texts [] ""
  | cons {s t : String} {ts : List Token} : Texts ts t → Texts (.text s :: ts) (s ++ t)

-- Elements one after the other, with no more than blanks around them. What an element may enclose,
-- and what it then stands for, depends on its name.
inductive Elements (Content : String → List Token → α → Prop) : List Token → List α → Prop
  | nil : Elements Content [] []
  | blank {s : String} {ts : List Token} {xs : List α} :
    allBlank s → Elements Content ts xs → Elements Content (.text s :: ts) xs
  | cons {tag : String} {us ts : List Token} {x : α} {xs : List α} :
    Content tag us x → Elements Content ts xs →
    Elements Content (.opening tag :: (us ++ .closing :: ts)) (x :: xs)

-- A field encloses nothing but text.
def IsField (name : κ → String) (tag : String) (ts : List Token) (field : κ × String) : Prop :=
  name field.1 = tag ∧ Texts ts field.2

def IsResult (tag : String) (ts : List Token) (fields : Fields) : Prop :=
  tag = Tag.result ∧ Elements (IsField id) ts fields

-- What a payload is made of.
inductive Part
  | operation (fields : List (OperationField × String))
  | dataset (results : List Fields)

inductive IsPart : String → List Token → Part → Prop
  | operation {ts : List Token} {fields : List (OperationField × String)} :
    Elements (IsField OperationField.tag) ts fields → IsPart Tag.operation ts (.operation fields)
  | dataset {ts : List Token} {results : List Fields} :
    Elements IsResult ts results → IsPart Tag.dataset ts (.dataset results)

-- What a message is made of.
inductive Block
  | header (fields : List (HeaderField × String))
  | payload (parts : List Part)

inductive IsBlock : String → List Token → Block → Prop
  | header {ts : List Token} {fields : List (HeaderField × String)} :
    Elements (IsField HeaderField.tag) ts fields → IsBlock Tag.header ts (.header fields)
  | payload {ts : List Token} {parts : List Part} :
    Elements IsPart ts parts → IsBlock Tag.payload ts (.payload parts)

def IsMessage (tag : String) (ts : List Token) (blocks : List Block) : Prop :=
  tag = Tag.message ∧ Elements IsBlock ts blocks

-- A document is one message.
def IsDocument (ts : List Token) (blocks : List Block) : Prop :=
  Elements IsMessage ts [blocks]

def Part.operationFields : Part → List (OperationField × String)
  | operation fields => fields
  | dataset _        => []

def Part.results : Part → List Fields
  | operation _     => []
  | dataset results => results

def Block.headerFields : Block → List (HeaderField × String)
  | header fields => fields
  | payload _     => []

def Block.operationFields : Block → List (OperationField × String)
  | header _      => []
  | payload parts => parts.flatMap (·.operationFields)

def Block.results : Block → List Fields
  | header _      => []
  | payload parts => parts.flatMap (·.results)

section Tokens

variable {Content : String → List Token → α → Prop} {tag s : String} {ts us : List Token}
variable {xs ys : List α}

theorem Elements.append (h₁ : Elements Content ts xs) (h₂ : Elements Content us ys) :
    Elements Content (ts ++ us) (xs ++ ys) := by
  induction h₁
  case nil           => exact h₂
  case blank hb _ hi => exact .blank hb hi
  case cons hc _ hi  =>
    rw [List.cons_append, List.append_assoc]
    exact .cons hc hi

theorem elements_nil_iff : Elements Content [] xs ↔ xs = [] := by
  constructor
  case mp  => intro h; cases h; rfl
  case mpr => rintro rfl; exact .nil

theorem elements_text_iff :
    Elements Content (.text s :: ts) xs ↔ allBlank s ∧ Elements Content ts xs := by
  constructor
  case mp  => intro h; cases h; exact ⟨‹_›, ‹_›⟩
  case mpr => exact fun ⟨hb, h⟩ => .blank hb h

theorem not_elements_closing : ¬Elements Content (.closing :: ts) xs :=
  nofun

theorem elements_opening_iff :
    Elements Content (.opening tag :: ts) xs ↔ ∃ us x vs ys, ts = us ++ .closing :: vs ∧
      Content tag us x ∧ Elements Content vs ys ∧ xs = x :: ys := by
  constructor
  case mp  => intro h; cases h; exact ⟨_, _, _, _, rfl, ‹_›, ‹_›, rfl⟩
  case mpr => rintro ⟨us, x, vs, ys, rfl, hc, h, rfl⟩; exact .cons hc h

end Tokens

end Grammar

end ReportExchange
