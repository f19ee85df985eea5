import ReportExchange.Text.Blank
import ReportExchange.Text.Numeral

namespace ReportExchange

open Text

-- The identity of a row within its table. A negative one is not set.
structure RowId where
  val : Int64
deriving DecidableEq, Repr

namespace RowId

def unset : RowId := ⟨-1⟩

def isSet (id : RowId) : Bool :=
  decide (0 ≤ id.val)

def last : RowId := ⟨Int64.maxValue⟩

-- The number after an identity. There is none after the last one.
def next? (id : RowId) : Option Int64 :=
  if id = last then none else some (id.val + 1)

def text (id : RowId) : String :=
  toString id.val

-- A text that is no row identity, with the reason.
structure Unreadable where
  source : String
  fault  : NumeralFault
deriving DecidableEq, Repr

def Unreadable.message (u : Unreadable) : String :=
  "Invalid row ID '" ++ u.source ++ "': " ++ u.fault.message

def read (source : String) : Except Unreadable RowId :=
  match readInt64 (trimmed source.toList) with
  | .ok n    => .ok ⟨n⟩
  | .error f => .error ⟨source, f⟩

def read? (source : String) : Option RowId :=
  (read source).toOption

end RowId

-- The identity of a message, a UUID in the spelling that it was given in.
structure MessageId where
  text : String
deriving DecidableEq, Repr

namespace MessageId

def isHex (c : Char) : Bool :=
  (digitBelow 16 c).isSome

-- Groups of 8, 4, 4, 4 and 12 hexadecimal digits.
def isHyphenated (cs : List Char) : Bool :=
  cs.length == 36 &&
  (cs.zipIdx.all fun (c, i) =>
    if i == 8 || i == 13 || i == 18 || i == 23 then c == '-' else isHex c)

def isSimple (cs : List Char) : Bool :=
  cs.length == 32 && cs.all isHex

def isBraced : List Char → Bool
  | '\x7b' :: cs => cs.getLast? == some '\x7d' && isHyphenated cs.dropLast
  | _ => false

-- The letters of the name space may be in any case.
def isUrn (cs : List Char) : Bool :=
  (cs.take 9).map Char.toLower == "urn:uuid:".toList && isHyphenated (cs.drop 9)

def read? (source : String) : Option MessageId :=
  let cs := source.toList
  if isSimple cs || isHyphenated cs || isBraced cs || isUrn cs then some ⟨source⟩ else none

-- A byte as two hexadecimal digits.
def hexPair (b : UInt8) : List Char :=
  [Nat.digitChar (b.toNat / 16), Nat.digitChar (b.toNat % 16)]

-- The bits that say that the others are random.
def markRandom (i : Nat) (b : UInt8) : UInt8 :=
  if i = 6 then b &&& 0x0F ||| 0x40 else if i = 8 then b &&& 0x3F ||| 0x80 else b

def hyphenBefore (i : Nat) : List Char :=
  if i = 4 ∨ i = 6 ∨ i = 8 ∨ i = 10 then ['-'] else []

-- The identity that sixteen random bytes make.
def ofRandom (bytes : List UInt8) : MessageId :=
  ⟨String.ofList (bytes.zipIdx.flatMap fun (b, i) => hyphenBefore i ++ hexPair (markRandom i b))⟩

end MessageId

end ReportExchange
