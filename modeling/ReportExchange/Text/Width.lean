import ReportExchange.Text.Width.Emoji
import ReportExchange.Text.Width.Mark
import ReportExchange.Text.Width.Wide

namespace ReportExchange.Text

def within (ranges : List (Nat × Nat)) (c : Char) : Bool :=
  ranges.any fun r => r.1 ≤ c.toNat && c.toNat ≤ r.2

def isMark (c : Char) : Bool := within markRanges c
def isWide (c : Char) : Bool := within wideRanges c
def isEmoji (c : Char) : Bool := within emojiRanges c
def isSelectable (c : Char) : Bool := within selectableRanges c
def takesSkin (c : Char) : Bool := within skinRanges c

-- Drawn as an emoji by itself, but as text on demand; the enclosed ideographs stay wide then too.
def isTextOnDemand (c : Char) : Bool :=
  isSelectable c && isEmoji c && !(0x1F200 ≤ c.toNat && c.toNat ≤ 0x1F2FF)

def joiner : Char := '\u200d'
def textSelector : Char := '\ufe0e'
def emojiSelector : Char := '\ufe0f'
def keycap : Char := '\u20e3'

def isIndicator (c : Char) : Bool := 0x1F1E6 ≤ c.toNat && c.toNat ≤ 0x1F1FF
def isSkin (c : Char) : Bool := 0x1F3FB ≤ c.toNat && c.toNat ≤ 0x1F3FF
def isTagLetter (c : Char) : Bool := 0xE0061 ≤ c.toNat && c.toNat ≤ 0xE007A
def isTagDigit (c : Char) : Bool := 0xE0030 ≤ c.toNat && c.toNat ≤ 0xE0039
def isTagEnd (c : Char) : Bool := c.toNat == 0xE007F
def isBlackFlag (c : Char) : Bool := c.toNat == 0x1F3F4

def isLam (c : Char) : Bool :=
  within [(0x644, 0x644), (0x6B5, 0x6B8), (0x76A, 0x76A), (0x8A6, 0x8A6), (0x8C7, 0x8C7)] c

def isAlef (c : Char) : Bool :=
  within [(0x622, 0x623), (0x625, 0x625), (0x627, 0x627), (0x671, 0x673), (0x675, 0x675),
    (0x773, 0x774), (0x870, 0x882)] c

-- The letters that the Khmer sign coeng puts under the letter before it.
def isKhmerFoot (c : Char) : Bool :=
  within [(0x1780, 0x1782), (0x1784, 0x1787), (0x1789, 0x178C), (0x178E, 0x1793),
    (0x1795, 0x1798), (0x179B, 0x179D), (0x17A0, 0x17A0), (0x17A2, 0x17A2), (0x17A7, 0x17A7),
    (0x17AB, 0x17AC), (0x17AF, 0x17AF)] c

def isTifinagh (c : Char) : Bool :=
  within [(0x2D31, 0x2D65), (0x2D6F, 0x2D6F)] c

-- Arabic letters join over these.
def isTransparent (c : Char) : Bool :=
  isMark c && !within rigidRanges c

-- The letters of other ligatures join over these.
def isSlight (c : Char) : Bool :=
  within [(0x34F, 0x34F), (0x17B4, 0x17B5), (0x180B, 0x180D), (0x180F, 0x180F), (0xFE00, 0xFE0F),
    (0xE0100, 0xE01EF)] c

-- The last parts of ligatures, by script.
inductive Ligature
  | hebrewLamed
  | bugineseYa
  -- The vowel sign with the letter after it.
  | bugineseVowelYa
  | tifinagh
  -- The joining sign with the consonant after it.
  | tifinaghJoined
  | lisuTone
  | turkicI
  | khmerFoot
  | kiratE
  | kiratAi
deriving DecidableEq, Repr

-- What a text begins with, as far as it bears on the width of the character before it.
inductive Opening
  | plain
  | lineFeed
  | emoji
  | skin
  | indicator
  | indicators
  -- A joiner with an emoji after it, and what can stand before the joiner.
  | joined
  | joinedKeycap
  | joinedIndicator
  | joinedPair
  | joinedPairAfterOne
  | joinedTag (letters digits : Nat)
  | alef
  | ligature (part : Ligature) (joiner : Bool)
deriving DecidableEq, Repr

inductive Selector
  | text
  | emoji
deriving DecidableEq, Repr

-- What stands to the right of a character.
structure Following where
  opening  : Opening := .plain
  selector : Option Selector := none
deriving DecidableEq, Repr

namespace Following

def isLigature : Opening → Bool
  | .alef | .ligature _ _ => true
  | _ => false

-- Puts a selector before a text. It hides what it stands before, unless that is part of a ligature
-- or, for an emoji, goes on to the left of the selector.
def select (f : Following) (s : Selector) : Following :=
  match f.opening, s with
  | .joined, .emoji => ⟨.joined, some s⟩
  | .joinedKeycap, .emoji => ⟨.joinedKeycap, some s⟩
  | o, s => ⟨if isLigature o then o else .plain, some s⟩

-- The text after the selector, which turned out to select nothing.
def dropSelector (f : Following) : Opening :=
  if f.selector.isNone || isLigature f.opening then f.opening else .plain

end Following

-- The width of a character that nothing is known to follow, and what it begins a text with.
def alone (c : Char) : Int × Opening :=
  if isMark c then (0, .plain)
  else if isAlef c then (1, .alef)
  else if isKhmerFoot c then (1, .ligature .khmerFoot false)
  else if isTifinagh c then (1, .ligature .tifinagh false)
  else if isIndicator c then (1, .indicator)
  else if isSkin c then (2, .skin)
  else if isEmoji c then (2, .emoji)
  else match c.toNat with
    | 0x5DC => (1, .ligature .hebrewLamed false)
    | 0x17D8 => (3, .plain)
    | 0x1A10 => (1, .ligature .bugineseYa false)
    | 0xA4FC => (1, .ligature .lisuTone false)
    | 0xA4FD => (1, .ligature .lisuTone false)
    | 0x10C03 => (1, .ligature .turkicI false)
    | 0x16D67 => (1, .ligature .kiratE false)
    | 0x16D68 => (1, .ligature .kiratAi false)
    | _ => (if isWide c then 2 else 1, .plain)

-- What a character adds before the last part of a ligature; nothing if it has no share in it.
def beforeLigature (part : Ligature) (hasJoiner : Bool) (c : Char) : Option (Int × Opening) :=
  match part, hasJoiner, c.toNat with
  | .hebrewLamed, true, 0x5D0 => some (0, .plain)
  | .khmerFoot, _, 0x17D2 => some (-1, .plain)
  | .bugineseYa, true, 0x1A17 => some (0, .ligature .bugineseVowelYa true)
  | .bugineseVowelYa, _, 0x1A15 => some (0, .plain)
  | .tifinagh, _, 0x2D7F => some (1, .ligature .tifinaghJoined true)
  | .tifinagh, true, _ => if isTifinagh c then some (0, .plain) else none
  | .tifinaghJoined, _, _ => if isTifinagh c then some (-1, .plain) else none
  | .lisuTone, _, n => if 0xA4F8 ≤ n && n ≤ 0xA4FB then some (0, .plain) else none
  | .turkicI, true, 0x10C32 => some (0, .plain)
  | .kiratE, _, 0x16D63 => some (0, .plain)
  | .kiratE, _, 0x16D67 => some (0, .ligature .kiratAi false)
  | .kiratE, _, 0x16D68 => some (1, .ligature .kiratE false)
  | .kiratE, _, 0x16D69 => some (0, .plain)
  | .kiratAi, _, 0x16D63 => some (0, .plain)
  | _, _, _ => none

-- What a character adds before the tags of a flag: letters and then digits, read from the end.
def beforeTags (letters digits : Nat) (c : Char) : Option (Int × Opening) :=
  if isTagLetter c && digits = 0 && letters < 6 then some (0, .joinedTag (letters + 1) 0)
  else if isTagDigit c && ((digits = 0 && letters < 5) || (0 < digits && digits < 3)) then
    some (0, .joinedTag 0 (digits + 1))
  else if isBlackFlag c && (3 ≤ letters || digits = 3) then some (0, .emoji)
  else none

-- What a character adds before a joiner and an emoji.
def beforeJoined (c : Char) : Option (Int × Opening) :=
  if c = keycap then some (0, .joinedKeycap)
  else if isIndicator c then some (1, .joinedIndicator)
  else if isSkin c then some (0, .skin)
  else if isTagEnd c then some (0, .joinedTag 0 0)
  else if (alone c).2 = .emoji then some (0, .emoji)
  else none

-- The joiner itself takes no column.
def joining (c : Char) : Option (Int × Opening) :=
  if c = joiner then some (0, .joined) else none

-- What a character adds to the width of the text after it where it has its own share in how that
-- begins.
def together (c : Char) : Opening → Option (Int × Opening)
  | .plain | .lineFeed => none
  | .alef =>
    if isLam c then some (0, .plain) else if isTransparent c then some (0, .alef) else none
  | .ligature part hasJoiner =>
    if c = joiner then some (0, .ligature part true)
    else if isSlight c then some (0, .ligature part hasJoiner)
    else beforeLigature part hasJoiner c
  | .skin => if takesSkin c then some (0, .emoji) else joining c
  | .indicator => if isIndicator c then some (1, .indicators) else none
  | .indicators => if isIndicator c then some (1, .indicators) else joining c
  | .emoji => joining c
  | .joined => beforeJoined c
  | .joinedKeycap => none
  | .joinedIndicator => if isIndicator c then some (-1, .joinedPair) else none
  | .joinedPair => if isIndicator c then some (3, .joinedPairAfterOne) else joining c
  | .joinedPairAfterOne => if isIndicator c then some (-1, .joinedPair) else joining c
  | .joinedTag letters digits => beforeTags letters digits c

-- What a character adds to the width of the text after it, and what the longer text begins with.
def added (c : Char) (f : Following) : Int × Following :=
  if f.selector = some .emoji && isSelectable c then
    (if f.opening = .joined || f.opening = .joinedKeycap then 0 else 2, ⟨.emoji, none⟩)
  else if c.toNat ≤ 0xA0 then
    if c = '\n' then (1, ⟨.lineFeed, none⟩)
    else if c = '\r' && f = ⟨.lineFeed, none⟩ then (0, {})
    else (1, {})
  else if c = emojiSelector then (0, Following.select ⟨f.dropSelector, none⟩ .emoji)
  else if c = textSelector then (0, Following.select ⟨f.dropSelector, none⟩ .text)
  else if f.selector = some .text && isTextOnDemand c then (1, {})
  else
    let (w, opening) := (together c f.dropSelector).getD (alone c)
    (w, ⟨opening, none⟩)

-- The number of columns that a line of text takes. Some characters are drawn together with those that
-- follow them, so a text is measured from its end.
def width (s : String) : Nat :=
  (s.toList.foldr (fun c (total, f) =>
    let (w, f) := added c f
    (total + w, f)) ((0 : Int), ({} : Following))).1.toNat

end ReportExchange.Text
