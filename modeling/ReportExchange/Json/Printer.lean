import ReportExchange.Datum.Basic

namespace ReportExchange.Json

def hexDigit (n : Nat) : Char :=
  (Nat.digitChar n)

def escape (c : Char) : List Char :=
  match c with
  | '\x22' => ['\\', '\x22']
  | '\\' => ['\\', '\\']
  | '\x08' => ['\\', 'b']
  | '\x0c' => ['\\', 'f']
  | '\n' => ['\\', 'n']
  | '\r' => ['\\', 'r']
  | '\t' => ['\\', 't']
  | c =>
    if c.toNat < 0x20 then
      ['\\', 'u', '0', '0', hexDigit (c.toNat / 16), hexDigit (c.toNat % 16)]
    else [c]

def quote (s : String) : String :=
  String.ofList (['\x22'] ++ s.toList.flatMap escape ++ ['\x22'])

mutual

def line : Datum → String
  | .null => "null"
  | .flag true => "true"
  | .flag false => "false"
  | .number literal => literal
  | .text s => quote s
  | .moment literal => quote literal
  | .torn => "null"
  | .list items => "[" ++ ",".intercalate (lineItems items) ++ "]"
  | .record entries => "\x7b" ++ ",".intercalate (lineEntries entries) ++ "\x7d"

def lineItems : List Datum → List String
  | [] => []
  | d :: ds => line d :: lineItems ds

def lineEntries : List (String × Datum) → List String
  | [] => []
  | (k, d) :: es => (quote k ++ ":" ++ line d) :: lineEntries es

end

def indentation (depth : Nat) : String :=
  String.ofList (List.replicate (2 * depth) ' ')

-- A bracketed block with one item a line; an empty one stays closed up.
def block (left right : String) (depth : Nat) (items : List String) : String :=
  if items.isEmpty then left ++ right
  else
    left ++ "\n" ++ indentation (depth + 1) ++
    (",\n" ++ indentation (depth + 1)).intercalate items ++ "\n" ++ indentation depth ++ right

mutual

def indented (depth : Nat) : Datum → String
  | .list items => block "[" "]" depth (indentedItems (depth + 1) items)
  | .record entries => block "\x7b" "\x7d" depth (indentedEntries (depth + 1) entries)
  | .null => "null"
  | .flag true => "true"
  | .flag false => "false"
  | .number literal => literal
  | .text s => quote s
  | .moment literal => quote literal
  | .torn => "null"

def indentedItems (depth : Nat) : List Datum → List String
  | [] => []
  | d :: ds => indented depth d :: indentedItems depth ds

def indentedEntries (depth : Nat) : List (String × Datum) → List String
  | [] => []
  | (k, d) :: es => (quote k ++ ": " ++ indented depth d) :: indentedEntries depth es

end

def pretty (d : Datum) : String :=
  indented 0 d

end ReportExchange.Json
