import ReportExchange.Xml.Reading

namespace ReportExchange.Xml

open Text

abbrev Bytes := List UInt8

def lessThan : UInt8 := 0x3C
def greaterThan : UInt8 := 0x3E
def slash : UInt8 := 0x2F
def bang : UInt8 := 0x21
def question : UInt8 := 0x3F
def doubleQuote : UInt8 := 0x22
def singleQuote : UInt8 := 0x27
def hyphen : UInt8 := 0x2D
def bracket : UInt8 := 0x5B
def closingBracket : UInt8 := 0x5D

def isSpace (b : UInt8) : Bool :=
  b == 0x20 || b == 0x09 || b == 0x0A || b == 0x0D

def dropSpaceEnd (bs : Bytes) : Bytes :=
  (bs.reverse.dropWhile isSpace).reverse

-- The content of a tag and what follows it. A tag ends at the first `>` outside quotes.
def cutTag (quote : Option UInt8) : Bytes → Option (Bytes × Bytes)
  | [] => none
  | b :: bs =>
    match quote with
    | none =>
      if b = greaterThan then some ([], bs)
      else
        let quote := if b = doubleQuote ∨ b = singleQuote then some b else none
        (cutTag quote bs).map fun (content, rest) => (b :: content, rest)
    | some q =>
      (cutTag (if b = q then none else some q) bs).map fun (content, rest) => (b :: content, rest)

-- The content of other markup and what follows it. It ends at the first `>` that `closes` says ends
-- it, given the bytes before it, the last one first.
def cutAt (closes : Bytes → Bool) (before : Bytes) : Bytes → Option (Bytes × Bytes)
  | [] => none
  | b :: bs =>
    if b = greaterThan ∧ closes before then some (before.reverse, bs)
    else cutAt closes (b :: before) bs

-- The two hyphens that end a comment are not the ones that begin it.
def endsComment (before : Bytes) : Bool :=
  4 ≤ before.length && before.take 2 == [hyphen, hyphen]

def endsCdata (before : Bytes) : Bool :=
  before.take 2 == [closingBracket, closingBracket]

def endsInstruction (before : Bytes) : Bool :=
  before.head? == some question

-- As many markup declarations are closed as are open.
def endsDoctype (before : Bytes) : Bool :=
  before.count lessThan == before.count greaterThan

def lowered (b : UInt8) : UInt8 :=
  if 0x41 ≤ b && b ≤ 0x5A then b + 0x20 else b

def doctypeWord : Bytes := bytes "doctype"
def cdataWord : Bytes := bytes "[CDATA["

-- End tags have to match, and little else is checked: attributes are passed over, and the end of
-- the input closes everything.
structure Cursor where
  rest     : Bytes
  position : Nat
  -- The names of the elements that are open, the innermost first.
  openTags : List Bytes

namespace Cursor

-- What one step of reading gives: its event, and how far it went on and with which elements open.
structure Step where
  event    : Except Fault Event
  rest     : Bytes
  consumed : Nat
  openTags : List Bytes

def failed (c : Cursor) (fault : Fault) (consumed : Nat) : Step :=
  ⟨.error fault, [], consumed, c.openTags⟩

def nameOf (content : Bytes) : Bytes :=
  content.takeWhile (!isSpace ·)

def decodeName (name : Bytes) : Except Fault String :=
  match decode name with
  | .ok s    => .ok s
  | .error _ => .error .encoding

-- A name in a message; one that is not UTF-8 is left out of it.
def shownName (name : Bytes) : String :=
  (decode name).toOption.getD ""

-- A tag without `</`, `<!` or `<?`.
def startTag (c : Cursor) (content rest : Bytes) : Step :=
  if content.getLast? = some slash then
    ⟨(decodeName (nameOf content.dropLast)).map .empty, rest, content.length + 2, c.openTags⟩
  else
    ⟨(decodeName (nameOf content)).map .opening, rest, content.length + 2,
      nameOf content :: c.openTags⟩

-- An end tag; `content` follows its slash. Blanks after the name do not count, unless there is no
-- name.
def endTag (c : Cursor) (content rest : Bytes) : Step :=
  let name := if content.all isSpace then content else dropSpaceEnd content
  let consumed := content.length + 3
  match c.openTags with
  | [] => ⟨.error (.unmatchedEnd (shownName name)), rest, consumed, []⟩
  | expected :: openTags =>
    if name = expected then ⟨.ok .closing, rest, consumed, openTags⟩
    else ⟨.error (.mismatchedEnd (shownName expected) (shownName name)), rest, consumed, openTags⟩

def comment (c : Cursor) (content rest : Bytes) : Step :=
  if content.take 2 = [hyphen, hyphen] then ⟨.ok .aside, rest, content.length + 3, c.openTags⟩
  else ⟨.error (.unclosed .comment), rest, content.length + 3, c.openTags⟩

def cdata (c : Cursor) (content rest : Bytes) : Step :=
  let event :=
    if cdataWord.isPrefixOf content then
      match decode ((content.drop cdataWord.length).dropLast.dropLast) with
      | .ok s    => .ok (.cdata s)
      | .error _ => .error .encoding
    else .error (.unclosed .cdata)
  ⟨event, rest, content.length + 3, c.openTags⟩

def doctype (c : Cursor) (content rest : Bytes) : Step :=
  let event :=
    if (content.take doctypeWord.length).map lowered = doctypeWord then
      if (content.drop doctypeWord.length).all isSpace then .error .doctypeWithoutName
      else .ok .aside
    else .error (.unclosed .doctype)
  ⟨event, rest, content.length + 3, c.openTags⟩

def instruction (c : Cursor) (content rest : Bytes) : Step :=
  if 2 ≤ content.length then ⟨.ok .aside, rest, content.length + 2, c.openTags⟩
  else ⟨.error (.unclosed .instruction), rest, content.length + 2, c.openTags⟩

-- Markup that begins with `<!`; `bs` is what follows that.
def declared (c : Cursor) (bs : Bytes) : Step :=
  let unclosed (markup : Markup) := c.failed (.unclosed markup) (bs.length + 2)
  match bs with
  | [] => c.failed .unknownMarkup 1
  | b :: _ =>
    if b = bracket then
      match cutAt endsCdata [] bs with
      | some (content, rest) => c.cdata content rest
      | none => unclosed .cdata
    else if b = hyphen then
      match cutAt endsComment [] bs with
      | some (content, rest) => c.comment content rest
      | none => unclosed .comment
    else if lowered b = 0x64 then
      match cutAt endsDoctype [] bs with
      | some (content, rest) => c.doctype content rest
      | none => unclosed .doctype
    else c.failed .unknownMarkup 1

-- Markup; `bs` is what follows its `<`.
def markup (c : Cursor) (bs : Bytes) : Step :=
  match bs with
  | [] => c.failed (.unclosed .tag) 1
  | b :: bs' =>
    if b = bang then c.declared bs'
    else if b = question then
      match cutAt endsInstruction [] bs with
      | some (content, rest) => c.instruction content rest
      | none => c.failed (.unclosed .instruction) (bs.length + 1)
    else
      match cutTag none bs with
      | none => c.failed (.unclosed .tag) (bs.length + 1)
      | some (content, rest) =>
        if b = slash then c.endTag (content.drop 1) rest else c.startTag content rest

def textEvent (bs : Bytes) : Except Fault Event :=
  match decode bs with
  | .error f => .error (.undecodable f)
  | .ok s =>
    match unescape s with
    | .error f => .error (.escape f)
    | .ok s    => .ok (.text s)

-- Text runs up to the next `<`.
def step (c : Cursor) : Step :=
  match c.rest with
  | [] => ⟨.ok .done, [], 0, c.openTags⟩
  | b :: bs =>
    if b = lessThan then c.markup bs
    else
      let text := c.rest.takeWhile (· ≠ lessThan)
      ⟨textEvent text, c.rest.dropWhile (· ≠ lessThan), text.length, c.openTags⟩

def advance (c : Cursor) (s : Step) : Cursor where
  rest     := s.rest
  position := c.position + s.consumed
  openTags := s.openTags

-- All readings up to the end of the input or the first fault. Every event but the last reads at
-- least one byte, so `fuel` is never short if it exceeds their number.
def readAll : Nat → Cursor → List Reading
  | 0, _ => []
  | fuel + 1, c =>
    let s := c.step
    let reading : Reading := ⟨c.position, c.position + s.consumed, s.event⟩
    match s.event with
    | .error _ | .ok .done => [reading]
    | .ok _ => reading :: readAll fuel (c.advance s)

end Cursor

-- A byte order mark is passed over and does not count in offsets.
def withoutMark : Bytes → Bytes
  | 0xEF :: 0xBB :: 0xBF :: bs => bs
  | bs => bs

-- The readings of a document.
def readings (document : Bytes) : List Reading :=
  let bs := withoutMark document
  Cursor.readAll (bs.length + 1) ⟨bs, 0, []⟩

-- The reading of a document whose bytes cannot be had.
def noReadings (reason : String) : List Reading :=
  [⟨0, 0, .error (.unreadable reason)⟩]

end ReportExchange.Xml
