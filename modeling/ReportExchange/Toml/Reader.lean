import ReportExchange.Toml.Scalar

namespace ReportExchange.Toml

-- What stands under a key while a document is being read. Tables may be given by headers, by dotted
-- keys or inline, and each in one way only.
inductive Item
  | value (d : Datum)
  -- A table that no header has named so far is implicit; dotted keys make tables of their own kind.
  | table (implicit dotted : Bool) (entries : List (String × Item))
  | tables (elements : List (List (String × Item)))
deriving Inhabited

namespace Item

mutual

def toDatum : Item → Datum
  | value d => d
  | table _ _ entries => .record (entriesToDatum entries)
  | tables elements => .list (elementsToDatum elements)

def entriesToDatum : List (String × Item) → List (String × Datum)
  | [] => []
  | (k, i) :: es => (k, toDatum i) :: entriesToDatum es

def elementsToDatum : List (List (String × Item)) → List Datum
  | [] => []
  | e :: es => .record (entriesToDatum e) :: elementsToDatum es

end

end Item

-- A table in the making.
structure Section where
  implicit : Bool := false
  dotted   : Bool := false
  entries  : List (String × Item) := []

namespace Section

def find? (s : Section) (key : String) : Option Item :=
  (s.entries.find? (·.1 = key)).map (·.2)

def set (s : Section) (key : String) (item : Item) : Section :=
  if s.entries.any (·.1 = key) then
    { s with entries := s.entries.map fun e => if e.1 = key then (key, item) else e }
  else { s with entries := s.entries ++ [(key, item)] }

def remove (s : Section) (key : String) : Section :=
  { s with entries := s.entries.filter (·.1 ≠ key) }

def toItem (s : Section) : Item :=
  .table s.implicit s.dotted s.entries

-- Changes the table at the end of a path. Tables that are missing on the way are made; of several
-- tables under one key the last is meant. Dotted keys do not enter a table that a header has named.
def modifyAt (dotted : Bool) (change : Section → Option Section) :
    List String → Section → Option Section
  | [], s => change s
  | key :: path, s =>
    match s.find? key with
    | none => (modifyAt dotted change path ⟨true, dotted, []⟩).map fun inner => s.set key inner.toItem
    | some (.value _) => none
    | some (.table implicit isDotted entries) =>
      if dotted && !implicit then none
      else (modifyAt dotted change path ⟨implicit, isDotted, entries⟩).map fun inner =>
        s.set key inner.toItem
    | some (.tables elements) =>
      match elements.getLast? with
      | none => none
      | some entries =>
        (modifyAt dotted change path ⟨false, false, entries⟩).map fun inner =>
          s.set key (.tables (elements.dropLast ++ [inner.entries]))

-- Gives a key a value. The key must be new, and the table that a dotted key leads to must be one
-- that dotted keys have made.
def assign (path : List String) (key : String) (item : Item) (s : Section) : Option Section :=
  s.modifyAt true (fun inner =>
    if inner.dotted = path.isEmpty || (inner.find? key).isSome then none
    else some (inner.set key item)) path

end Section

def isBareKeyChar (c : Char) : Bool :=
  c.isAlphanum || c = '-' || c = '_'

def simpleKey (cs : List Char) : Option (String × List Char) :=
  match cs with
  | [] => none
  | c :: _ =>
    if c = quote ∨ c = apostrophe then shortString cs
    else
      let word := cs.takeWhile isBareKeyChar
      if word.isEmpty then none else some (String.ofList word, cs.dropWhile isBareKeyChar)

-- Values within values, and keys within keys, are not nested as deep as this.
def nestingLimit : Nat := 80

-- The parts of a key, with points between them.
def keyParts : Nat → List Char → Option (List String × List Char)
  | 0, _ => none
  | fuel + 1, cs =>
    match simpleKey (skipSpace cs) with
    | none => none
    | some (part, cs) =>
      match skipSpace cs with
      | '.' :: cs => (keyParts fuel cs).map fun (parts, rest) => (part :: parts, rest)
      | rest => some ([part], rest)

def dottedKey (cs : List Char) : Option (List String × List Char) :=
  (keyParts (cs.length + 1) cs).filter fun (parts, _) => parts.length < nestingLimit

-- What follows a comment, if one stands here.
def skipComment (cs : List Char) : List Char :=
  match cs with
  | '#' :: cs => cs.dropWhile isPlain
  | cs => cs

-- Skips blanks, comments and line ends.
def skipBlankLines : Nat → List Char → List Char
  | 0, cs => cs
  | fuel + 1, cs =>
    match lineEnd? (skipComment (skipSpace cs)) with
    | some rest => skipBlankLines fuel rest
    | none => skipComment (skipSpace cs)

def keyOf (parts : List String) : Option (List String × String) :=
  parts.getLast?.map fun key => (parts.dropLast, key)

mutual

def value : Nat → Nat → List Char → Option (Datum × List Char)
  | 0, _, _ => none
  | fuel + 1, depth, cs =>
    match cs with
    | [] => none
    | '[' :: cs =>
      if nestingLimit ≤ depth + 1 then none
      else (items fuel (depth + 1) [] cs).map fun (ds, rest) => (.list ds, rest)
    | '\x7b' :: cs =>
      if nestingLimit ≤ depth + 1 then none
      else match skipSpace cs with
        | '\x7d' :: cs => some (.record [], cs)
        | cs => (members fuel (depth + 1) {} cs).map fun (s, rest) => (s.toItem.toDatum, rest)
    | c :: _ =>
      if c = quote ∨ c = apostrophe then (string cs).map fun (s, rest) => (.text s, rest)
      else bare cs

-- The values of a list; it may have a comma after its last one, and line ends anywhere.
def items : Nat → Nat → List Datum → List Char → Option (List Datum × List Char)
  | 0, _, _, _ => none
  | fuel + 1, depth, read, cs =>
    match skipBlankLines (cs.length + 1) cs with
    | ']' :: cs => some (read.reverse, cs)
    | cs =>
      match value fuel depth cs with
      | none => none
      | some (d, cs) =>
        match skipBlankLines (cs.length + 1) cs with
        | ',' :: cs => items fuel depth (d :: read) cs
        | ']' :: cs => some ((d :: read).reverse, cs)
        | _ => none

-- The entries of an inline table, on one line and without a comma after the last one.
def members : Nat → Nat → Section → List Char → Option (Section × List Char)
  | 0, _, _, _ => none
  | fuel + 1, depth, s, cs =>
    match dottedKey cs with
    | none => none
    | some (parts, cs) =>
      match keyOf parts, cs with
      | some (path, key), '=' :: cs =>
        match value fuel depth (skipSpace cs) with
        | none => none
        | some (d, cs) =>
          match s.assign path key (.value d) with
          | none => none
          | some s =>
            match skipSpace cs with
            | ',' :: cs => members fuel depth s cs
            | '\x7d' :: cs => some (s, cs)
            | _ => none
      | _, _ => none

end

-- A document so far: the finished part, and the table that is being filled.
structure Draft where
  root    : Section := {}
  current : Section := {}
  path    : List String := []
  -- The current table is one of several under its key.
  isElement : Bool := false

namespace Draft

-- Puts the current table in its place.
def finish (d : Draft) : Option Section :=
  match keyOf d.path with
  | none => some d.current
  | some (path, key) =>
    d.root.modifyAt false (fun parent =>
      if d.isElement then
        match parent.find? key with
        | some (.tables elements) =>
          some (parent.set key (.tables (elements ++ [d.current.entries])))
        | none => some (parent.set key (.tables [d.current.entries]))
        | _ => none
      else if (parent.find? key).isSome then none
      else some (parent.set key d.current.toItem)) path

-- Begins a table under a header. Only a table that came about on the way to another is taken up
-- again, and never one that dotted keys have made.
def beginTable (d : Draft) (parts : List String) : Option Draft := do
  let root ← d.finish
  let (path, key) ← keyOf parts
  let parent ← lookAt root path
  match parent.find? key with
  | none => some ⟨root, {}, parts, false⟩
  | some (.table true false entries) =>
    let root ← root.modifyAt false (fun parent => some (parent.remove key)) path
    some ⟨root, ⟨false, false, entries⟩, parts, false⟩
  | some _ => none
where
  -- The table at the end of a path, as it is or as it would be made.
  lookAt (s : Section) : List String → Option Section
    | [] => some s
    | key :: path =>
      match s.find? key with
      | none => lookAt ⟨true, false, []⟩ path
      | some (.value _) => none
      | some (.table implicit dotted entries) => lookAt ⟨implicit, dotted, entries⟩ path
      | some (.tables elements) =>
        match elements.getLast? with
        | some entries => lookAt ⟨false, false, entries⟩ path
        | none => none

-- Begins one more table under a header that may stand several times.
def beginElement (d : Draft) (parts : List String) : Option Draft := do
  let root ← d.finish
  let (path, key) ← keyOf parts
  let parent ← beginTable.lookAt root path
  match parent.find? key with
  | none | some (.tables _) => some ⟨root, {}, parts, true⟩
  | some _ => none

end Draft

-- The rest of a line: blanks and a comment, up to its end.
def lineRest? (cs : List Char) : Option (List Char) :=
  match skipComment (skipSpace cs) with
  | [] => some []
  | cs => lineEnd? cs

def header (isElement : Bool) (cs : List Char) : Option (List String × List Char) := do
  let (parts, cs) ← dottedKey cs
  match isElement, cs with
  | true, ']' :: ']' :: cs => some (parts, cs)
  | false, ']' :: cs => some (parts, cs)
  | _, _ => none

def assignment (d : Draft) (cs : List Char) : Option (Draft × List Char) := do
  let (parts, cs) ← dottedKey cs
  let (path, key) ← keyOf parts
  match cs with
  | '=' :: cs =>
    let (v, cs) ← value (2 * cs.length + 2) 0 (skipSpace cs)
    let current ← d.current.assign path key (.value v)
    some ({ d with current }, cs)
  | _ => none

-- One header, assignment or empty line, without its end.
def line (d : Draft) (cs : List Char) : Option (Draft × List Char) :=
  match cs with
  | '[' :: '[' :: cs => do
    let (parts, cs) ← header true cs
    let d ← d.beginElement parts
    some (d, cs)
  | '[' :: cs => do
    let (parts, cs) ← header false cs
    let d ← d.beginTable parts
    some (d, cs)
  | '#' :: _ => some (d, cs)
  | [] => some (d, [])
  | c :: _ => if c = '\n' ∨ c = '\r' then some (d, cs) else assignment d cs

def lines : Nat → Draft → List Char → Option Draft
  | 0, _, _ => none
  | _ + 1, d, [] => some d
  | fuel + 1, d, cs =>
    match line d (skipSpace cs) with
    | none => none
    | some (d, cs) =>
      match lineRest? cs with
      | none => none
      | some cs => lines fuel d cs

-- A byte order mark is passed over.
def withoutMark : List Char → List Char
  | '\ufeff' :: cs => cs
  | cs => cs

-- Reads a whole document as one record, and refuses it as a whole, without a reason.
def read? (text : String) : Option Datum := do
  let cs := withoutMark text.toList
  let d ← lines (cs.length + 1) {} cs
  let root ← d.finish
  return root.toItem.toDatum

end ReportExchange.Toml
