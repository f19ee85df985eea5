import ReportExchange.Xml.Escape

namespace ReportExchange.Xml

-- Written with one element a line, two spaces for every level, and the text of a leaf between its
-- tags.
inductive Element
  | leaf (tag text : String)
  | branch (tag : String) (children : List Element)

namespace Element

def lineStart (depth : Nat) : String :=
  "\n" ++ String.ofList (List.replicate (2 * depth) ' ')

-- A leaf without text is a single empty tag.
def leafText (tag text : String) : String :=
  if text = "" then "<" ++ tag ++ "/>"
  else "<" ++ tag ++ ">" ++ escape text ++ "</" ++ tag ++ ">"

mutual

def render (depth : Nat) : Element → String
  | leaf tag text => lineStart depth ++ leafText tag text
  | branch tag children =>
    lineStart depth ++ "<" ++ tag ++ ">" ++ renderAll (depth + 1) children ++
    lineStart depth ++ "</" ++ tag ++ ">"

def renderAll (depth : Nat) : List Element → String
  | [] => ""
  | e :: es => render depth e ++ renderAll depth es

end

def declaration : String := "<?xml version=\"1.0\" encoding=\"UTF-8\"?>"

def document (root : Element) : String :=
  declaration ++ render 0 root

end Element

end ReportExchange.Xml
