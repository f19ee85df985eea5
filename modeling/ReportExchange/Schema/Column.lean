import ReportExchange.Schema.Formula

namespace ReportExchange

-- What the values of a column mean. They travel as plain codes in any case.
inductive ColumnType
  | string
  | number
  | date
  | picklist
  | formula
deriving DecidableEq, Repr

namespace ColumnType

def all : List ColumnType :=
  [string, number, date, picklist, formula]

def name : ColumnType → String
  | string   => "string"
  | number   => "number"
  | date     => "date"
  | picklist => "picklist"
  | formula  => "formula"

def ofName? (name : String) : Option ColumnType :=
  all.find? (·.name = name)

end ColumnType

-- Where in a message a column is written: nowhere, in every record below its row, or, for a root
-- row, in place of the header or operation field of its name.
inductive Output
  | none
  | record
  | header
  | operation
deriving DecidableEq, Repr

namespace Output

def all : List Output :=
  [none, record, header, operation]

def name : Output → String
  | none      => "none"
  | record    => "record"
  | header    => "header"
  | operation => "operation"

def ofName? (name : String) : Option Output :=
  all.find? (·.name = name)

end Output

structure Column where
  id           : String
  type         : ColumnType := .string
  editable     : Bool := true
  visible      : Bool := true
  output       : Output := .none
  codeFormula  : Option String := none
  labelFormula : Option String := none
  preset       : Option String := none
  naturalKey   : Bool := false
deriving DecidableEq, Repr

-- The name of the column in which a child keeps the identity of its parent.
def foreignKey (parent : String) : String :=
  parent ++ "Id"

namespace Column

-- The hidden, read-only column that holds the identity of a parent.
def ofParent (parent : String) : Column where
  id       := foreignKey parent
  type     := .number
  editable := false
  visible  := false

def withOutput (c : Column) (output : Output) : Column :=
  { c with output }

-- A computed code is not edited.
def withCodeFormula (c : Column) (text : String) : Column :=
  { c with codeFormula := some text, editable := false }

def withLabelFormula (c : Column) (text : String) : Column :=
  { c with labelFormula := some text }

def withPreset (c : Column) (text : String) : Column :=
  { c with preset := some text }

def asNaturalKey (c : Column) : Column :=
  { c with naturalKey := true }

def readOnly (c : Column) : Column :=
  { c with editable := false }

def hidden (c : Column) : Column :=
  { c with visible := false }

def formulaFor (c : Column) : Half → Option String
  | .code  => c.codeFormula
  | .label => c.labelFormula

def hasFormula (c : Column) : Bool :=
  c.codeFormula.isSome || c.labelFormula.isSome

def isExported (c : Column) : Bool :=
  c.output ≠ .none

end Column

end ReportExchange
