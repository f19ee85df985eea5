namespace ReportExchange.Text

structure Utf8Fault where
  index : Nat
  -- The number of wrong bytes; none if the sequence is well formed as far as it goes but the text ends in it.
  wrong : Option Nat
deriving DecidableEq, Repr

namespace Utf8Fault

def message (f : Utf8Fault) : String :=
  match f.wrong with
  | some n => "invalid utf-8 sequence of " ++ toString n ++ " bytes from index " ++ toString f.index
  | none   => "incomplete utf-8 byte sequence from index " ++ toString f.index

end Utf8Fault

def bytes (s : String) : List UInt8 :=
  s.toUTF8.data.toList

def isContinuation (b : UInt8) : Bool :=
  0x80 ≤ b && b ≤ 0xBF

-- The length of the sequence that a lead byte starts; none for a byte that starts no sequence.
def leadLength (b : UInt8) : Option Nat :=
  if b < 0x80 then some 1
  else if 0xC2 ≤ b && b ≤ 0xDF then some 2
  else if 0xE0 ≤ b && b ≤ 0xEF then some 3
  else if 0xF0 ≤ b && b ≤ 0xF4 then some 4
  else none

-- The second byte excludes overlong forms, surrogates and everything past the last code point.
def secondFits (lead b : UInt8) : Bool :=
  if lead == 0xE0 then 0xA0 ≤ b && b ≤ 0xBF
  else if lead == 0xED then 0x80 ≤ b && b ≤ 0x9F
  else if lead == 0xF0 then 0x90 ≤ b && b ≤ 0xBF
  else if lead == 0xF4 then 0x80 ≤ b && b ≤ 0x8F
  else isContinuation b

-- How the sequence of a lead byte and the bytes after it is ill formed, if it is.
def sequenceFault (lead : UInt8) (rest : List UInt8) : Option (Option Nat) :=
  match leadLength lead with
  | none => some (some 1)
  | some n => tail (n - 1) 1 rest
where
  tail : Nat → Nat → List UInt8 → Option (Option Nat)
    | 0, _, _ => none
    | _ + 1, _, [] => some none
    | n + 1, i, b :: bs =>
      if (if i == 1 then secondFits lead b else isContinuation b) then tail n (i + 1) bs
      else some (some i)

-- The first fault of a byte string; `skip` bytes still belong to the sequence before.
def firstFault (index skip : Nat) : List UInt8 → Option Utf8Fault
  | [] => none
  | b :: bs =>
    match skip with
    | skip + 1 => firstFault (index + 1) skip bs
    | 0 =>
      match sequenceFault b bs with
      | some wrong => some ⟨index, wrong⟩
      | none => firstFault (index + 1) ((leadLength b).getD 1 - 1) bs

-- Accepts exactly the well-formed sequences. For any other the fault names the place of the first
-- ill-formed one, and how many bytes of it are wrong.
def decode (bs : List UInt8) : Except Utf8Fault String :=
  match String.fromUTF8? ⟨bs.toArray⟩ with
  | some s => .ok s
  | none   => .error ((firstFault 0 0 bs).getD ⟨0, none⟩)

end ReportExchange.Text
