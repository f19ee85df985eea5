import ReportExchange.Intake.Assembler
import ReportExchange.Text.Blank
import ReportExchange.Xml.Reader

namespace ReportExchange

open Text

namespace Intake

-- Where in the envelope reading stands. The leaves carry their text so far, an open result its draft.
inductive Place (Draft : Type)
  | start
  | message
  | header
  | headerField (field : HeaderField) (text : String)
  | payload
  | operation
  | operationField (field : OperationField) (text : String)
  | dataset
  | result (draft : Draft)
  | field (draft : Draft) (tag text : String)
  | finished
  | failed

-- The innermost element of the envelope that is open.
def Place.openTag {Draft : Type} : Place Draft → String
  | start | finished | failed => ""
  | message          => Tag.message
  | header           => Tag.header
  | headerField f _  => f.tag
  | payload          => Tag.payload
  | operation        => Tag.operation
  | operationField f _ => f.tag
  | dataset          => Tag.dataset
  | result _         => Tag.result
  | field _ _ _      => Tag.result

end Intake

-- The state of reading, with the envelope's fields as far as they have been read.
structure Intake (Draft : Type) where
  place     : Intake.Place Draft := .start
  header    : HeaderField → Option String := fun _ => none
  operation : OperationField → Option String := fun _ => none

namespace Intake

variable {Draft Record : Type}

def moved (i : Intake Draft) (place : Place Draft) : Intake Draft :=
  { i with place }

-- An element begins.
def opened (a : Assembler Draft Record) (i : Intake Draft) (tag : String) :
    Except IntakeFault (Intake Draft) :=
  match i.place with
  | .start => if tag = Tag.message then .ok (i.moved .message) else .error (.unexpectedTag tag)
  | .message =>
    if tag = Tag.header then .ok (i.moved .header)
    else if tag = Tag.payload then .ok (i.moved .payload)
    else .error (.unexpectedTag tag)
  | .header =>
    match HeaderField.read tag with
    | .ok f       => .ok (i.moved (.headerField f ""))
    | .error word => .error (.field (.word word))
  | .payload =>
    if tag = Tag.operation then .ok (i.moved .operation)
    else if tag = Tag.dataset then .ok (i.moved .dataset)
    else .error (.unexpectedTag tag)
  | .operation =>
    match OperationField.read tag with
    | .ok f       => .ok (i.moved (.operationField f ""))
    | .error word => .error (.field (.word word))
  | .dataset =>
    if tag = Tag.result then .ok (i.moved (.result a.blank)) else .error (.unexpectedTag tag)
  | .result draft => .ok (i.moved (.field draft tag ""))
  | .headerField _ _ | .operationField _ _ | .field _ _ _ | .finished | .failed =>
    .error (.unexpectedTag tag)

-- An element ends; the end of a result gives a record.
def closed (a : Assembler Draft Record) (i : Intake Draft) :
    Except IntakeFault (Intake Draft × Option Record) :=
  match i.place with
  | .headerField f text =>
    .ok ({ i.moved .header with header := fun g => if g = f then some text else i.header g }, none)
  | .operationField f text =>
    .ok ({ i.moved .operation with
      operation := fun g => if g = f then some text else i.operation g }, none)
  | .field draft tag text =>
    match a.field draft tag text with
    | .ok draft    => .ok (i.moved (.result draft), none)
    | .error cause => .error (.field cause)
  | .result draft => .ok (i.moved .dataset, some (a.finish draft))
  | .header | .payload => .ok (i.moved .message, none)
  | .operation | .dataset => .ok (i.moved .payload, none)
  | .message => .ok (i.moved .finished, none)
  | .start | .finished | .failed => .error (.unexpectedTag "/")

-- Text belongs into a leaf; anywhere else only blanks may stand.
def pushed (i : Intake Draft) (s : String) : Except IntakeFault (Intake Draft) :=
  match i.place with
  | .headerField f text      => .ok (i.moved (.headerField f (text ++ s)))
  | .operationField f text   => .ok (i.moved (.operationField f (text ++ s)))
  | .field draft tag text    => .ok (i.moved (.field draft tag (text ++ s)))
  | _ => if allBlank s then .ok i else .error .unexpectedText

def ended (i : Intake Draft) : Except IntakeFault Unit :=
  match i.place with
  | .finished => .ok ()
  | place     => .error (.unexpectedEnd place.openTag)

-- One event before the end of the input.
def take (a : Assembler Draft Record) (i : Intake Draft) :
    Xml.Event → Except IntakeFault (Intake Draft × Option Record)
  | .opening tag => (i.opened a tag).map fun i => (i, none)
  | .empty tag   => (i.opened a tag).bind (·.closed a)
  | .closing     => i.closed a
  | .text s      => (i.pushed s).map fun i => (i, none)
  | .cdata s     => (i.pushed s).map fun i => (i, none)
  | .aside | .done => .ok (i, none)

end Intake

-- A message that is being read: the readings that are left, and what has come of the others.
structure Parser (Draft : Type) where
  readings : List Xml.Reading
  position : Nat := 0
  intake   : Intake Draft := {}
  -- The number of records given so far.
  records  : Nat := 0

namespace Parser

variable {Draft Record : Type}

def ofReadings (readings : List Xml.Reading) : Parser Draft :=
  { readings }

def ofBytes (document : List UInt8) : Parser Draft :=
  ofReadings (Xml.readings document)

-- The end of the input.
def conclude (records position : Nat) (i : Intake Draft) :
    Except IntakeError (Option Record) × Parser Draft :=
  match i.ended with
  | .ok ()       => (.ok none, ⟨[], position, i, records⟩)
  | .error fault => (.error ⟨position, fault⟩, ⟨[], position, i.moved .failed, records⟩)

-- Reads on up to the end of a result, the end of the input or a fault.
def pull (a : Assembler Draft Record) (records : Nat) (position : Nat) (i : Intake Draft) :
    List Xml.Reading → Except IntakeError (Option Record) × Parser Draft
  | [] => conclude records position i
  | r :: rs =>
    match r.event with
    | .error fault => (.error ⟨r.start, .xml fault⟩, ⟨rs, r.stop, i.moved .failed, records⟩)
    | .ok .done    => conclude records r.stop i
    | .ok event    =>
      match i.take a event with
      | .error fault          => (.error ⟨r.start, fault⟩, ⟨rs, r.stop, i.moved .failed, records⟩)
      | .ok (i, none)         => pull a records r.stop i rs
      | .ok (i, some record)  => (.ok (some record), ⟨rs, r.stop, i, records + 1⟩)

-- The next record; none once the message has ended. After a failure there is nothing more.
def next (a : Assembler Draft Record) (p : Parser Draft) :
    Except IntakeError (Option Record) × Parser Draft :=
  match p.intake.place with
  | .finished | .failed => (.ok none, p)
  | _ => pull a p.records p.position p.intake p.readings

-- Records one after the other. No more than the readings that are left can come.
def pullAll (a : Assembler Draft Record) : Nat → Parser Draft →
    List (Record × Nat) × Option IntakeError × Parser Draft
  | 0, p => ([], none, p)
  | fuel + 1, p =>
    match p.next a with
    | (.error e, p)      => ([], some e, p)
    | (.ok none, p)      => ([], none, p)
    | (.ok (some r), p)  =>
      let (rs, e, p') := pullAll a fuel p
      ((r, p.position) :: rs, e, p')

-- All records, each with the offset that reading had come to, and the error that ended them.
def all (a : Assembler Draft Record) (p : Parser Draft) :
    List (Record × Nat) × Option IntakeError × Parser Draft :=
  pullAll a (p.readings.length + 1) p

def operationType (p : Parser Draft) : Option (Except UnknownWord OperationType) :=
  (p.intake.operation .opType).map OperationType.read

end Parser

end ReportExchange
