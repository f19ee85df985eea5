namespace ReportExchange.Text

-- The white space of the Unicode standard, by code point.
def isBlank (c : Char) : Bool :=
  let n := c.toNat
  (9 ≤ n && n ≤ 13) || n == 0x20 || n == 0x85 || n == 0xA0 || n == 0x1680 ||
  (0x2000 ≤ n && n ≤ 0x200A) || n == 0x2028 || n == 0x2029 || n == 0x202F ||
  n == 0x205F || n == 0x3000

-- Drops the blanks at the end of a list of characters.
def dropBlankEnd (cs : List Char) : List Char :=
  (cs.reverse.dropWhile isBlank).reverse

def trimmed (cs : List Char) : List Char :=
  dropBlankEnd (cs.dropWhile isBlank)

-- The text without the blanks at both of its ends.
def trim (s : String) : String :=
  String.ofList (trimmed s.toList)

def allBlank (s : String) : Bool :=
  s.toList.all isBlank

end ReportExchange.Text
