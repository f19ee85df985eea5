namespace ReportExchange.Text

-- The small form of a character, where it is ASCII. Case matters only for texts that may be one of
-- a fixed set of ASCII words, so every other character keeps its place and matches nothing. The
-- kelvin sign is the only letter outside ASCII whose small form is a single ASCII letter.
def small (c : Char) : Char :=
  if c = '\u212a' then 'k' else c.toLower

def smallForm (s : String) : String :=
  String.ofList (s.toList.map small)

-- The capital form of a character, where it is ASCII: ligatures and the sharp s have more than one
-- capital.
def capitals (c : Char) : List Char :=
  match c with
  | '\u00df' => ['S', 'S']
  | '\u0131' => ['I']
  | '\u017f' => ['S']
  | '\ufb00' => ['F', 'F']
  | '\ufb01' => ['F', 'I']
  | '\ufb02' => ['F', 'L']
  | '\ufb03' => ['F', 'F', 'I']
  | '\ufb04' => ['F', 'F', 'L']
  | '\ufb05' => ['S', 'T']
  | '\ufb06' => ['S', 'T']
  | c => [c.toUpper]

def capitalForm (s : String) : String :=
  String.ofList (s.toList.flatMap capitals)

end ReportExchange.Text
