import ReportExchange.Text.Numeral

namespace ReportExchange

-- A number keeps its literal, so that nothing is lost before it is known what the number is for. A
-- text with half a character in it, or a record with such a key, is torn: it has no value, but may
-- be passed over.
inductive Datum
  | null
  | flag (value : Bool)
  | number (literal : String)
  | text (value : String)
  | moment (literal : String)
  | list (items : List Datum)
  | record (entries : List (String × Datum))
  | torn
deriving Inhabited

namespace Datum

def ofInt (n : Int) : Datum :=
  .number (toString n)

def ofNat (n : Nat) : Datum :=
  .number (toString n)

def ofOption (value : Option String) : Datum :=
  match value with
  | some s => .text s
  | none   => .null

def text? : Datum → Option String
  | text s => some s
  | _ => none

def flag? : Datum → Option Bool
  | flag b => some b
  | _ => none

def list? : Datum → Option (List Datum)
  | list items => some items
  | _ => none

def entries? : Datum → Option (List (String × Datum))
  | record entries => some entries
  | _ => none

-- A whole number of 64 bits. A fraction, an exponent or a negative zero makes it something else.
def int64? : Datum → Option Int64
  | number literal =>
    if literal = "-0" then none else (Text.readInt64 literal.toList).toOption
  | _ => none

def isNull : Datum → Bool
  | null => true
  | _ => false

def isEmptyRecord : Datum → Bool
  | record [] => true
  | _ => false

def isEmptyList : Datum → Bool
  | list [] => true
  | _ => false

-- What a format allows where it leaves a choice.
structure Form where
  -- A list may go on after the last member of a structure.
  allowsMore : Bool
  -- What stands for nothing at all.
  isVoid     : Datum → Bool

namespace Form

def json : Form where
  allowsMore := false
  isVoid     := isNull

def toml : Form where
  allowsMore := true
  isVoid d   := isEmptyRecord d || isEmptyList d

-- A part of a TOML document that is set aside until it is known what it is for.
def tomlAside : Form where
  allowsMore := false
  isVoid     := isEmptyRecord

end Form

-- A word of a closed set, which may also stand as the only key of a record that holds nothing.
def word? (f : Form) : Datum → Option String
  | text s => some s
  | record [(s, d)] => if f.isVoid d then some s else none
  | _ => none

-- Reads a datum that may be null.
def nullable {α : Type} (decode : Datum → Option α) : Datum → Option (Option α)
  | null => some none
  | d => (decode d).map some

def each {α : Type} (decode : Datum → Option α) (d : Datum) : Option (List α) :=
  d.list?.bind fun items => items.mapM decode

-- The entry of a record; null where there is none.
def get (d : Datum) (key : String) : Datum :=
  match d with
  | record entries => ((entries.find? (·.1 = key)).map (·.2)).getD null
  | _ => null

-- The named members of a structure, given by name or by place.
structure Members where
  find    : String → Option Datum
  byPlace : Bool

-- A structure is a record, in which no member stands twice, or a list of the members in their
-- order, of which the last ones may be missing. Other entries of a record are passed over. A moment
-- counts as a record of other entries.
def members? (f : Form) (names : List String) : Datum → Option Members
  | record entries =>
    if names.all fun n => (entries.filter (·.1 = n)).length ≤ 1 then
      some ⟨fun n => (entries.find? (·.1 = n)).map (·.2), false⟩
    else none
  | list items =>
    if f.allowsMore || items.length ≤ names.length then
      some ⟨fun n => ((names.zip items).find? (·.1 = n)).map (·.2), true⟩
    else none
  | moment _ => some ⟨fun _ => none, false⟩
  | _ => none

namespace Members

variable {α : Type}

def required (m : Members) (name : String) (decode : Datum → Option α) : Option α :=
  (m.find name).bind decode

def withDefault (m : Members) (name : String) (value : α) (decode : Datum → Option α) : Option α :=
  match m.find name with
  | some d => decode d
  | none   => some value

-- A member that may be null or left out, though not left out of a list.
def optional (m : Members) (name : String) (decode : Datum → Option α) : Option (Option α) :=
  match m.find name with
  | some d => nullable decode d
  | none   => if m.byPlace then none else some none

end Members

end Datum

end ReportExchange
