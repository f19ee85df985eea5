import ReportExchange.Text.Split
import ReportExchange.Text.Utf8

namespace ReportExchange

inductive Place
  | missing
  -- A path that leads through a file.
  | beyondFile
  -- A path that is longer than any, or has such a name in it.
  | tooLong
  | directory
  | locked
  | file (content : List UInt8)
deriving DecidableEq, Repr

-- What stands where.
abbrev Files := String → Place

namespace Place

def exists? : Place → Bool
  | missing | beyondFile | tooLong => false
  | directory | locked | file _ => true

def missingReason : String := "No such file or directory (os error 2)"
def beyondFileReason : String := "Not a directory (os error 20)"
def tooLongReason : String := "File name too long (os error 36)"
def directoryReason : String := "Is a directory (os error 21)"
def lockedReason : String := "Permission denied (os error 13)"
def notTextReason : String := "stream did not contain valid UTF-8"

-- Why nothing can be read from a place that is no file.
def refusalText : Place → String
  | missing    => missingReason
  | beyondFile => beyondFileReason
  | tooLong    => tooLongReason
  | directory  => directoryReason
  | locked     => lockedReason
  | file _     => ""

def bytes : Place → Except String (List UInt8)
  | file content => .ok content
  | place        => .error place.refusalText

def text (p : Place) : Except String String :=
  match p.bytes with
  | .error reason => .error reason
  | .ok bytes =>
    match Text.decode bytes with
    | .ok s    => .ok s
    | .error _ => .error notTextReason

end Place

namespace FilePath

def pieces (path : String) : List String :=
  (Text.pieces '/' path.toList).map String.ofList

-- A piece that leads nowhere.
def isVoid (piece : String) : Bool :=
  piece = "" || piece = "."

-- The names that a path leads through.
def steps (path : String) : List String :=
  (pieces path).filter (!isVoid ·)

def dropEnd (drops : String → Bool) (pieces : List String) : List String :=
  (pieces.reverse.dropWhile drops).reverse

-- The names that lead to a path from the directory in which relative paths are followed; none if
-- the path leads out of it.
def within? (path : String) : Option (List String) :=
  let go (here : List String) (name : String) : Option (List String) :=
    if name ≠ ".." then some (here ++ [name]) else if here = [] then none else some here.dropLast
  if path.startsWith "/" then none else (steps path).foldlM go []

-- Only a directory may be named with a slash or points at its end.
def asksDirectory (path : String) : Bool :=
  match (pieces path).getLast? with
  | some last => isVoid last || last = ".."
  | none => false

-- A path up to its last name, written as the path is; only what leads nowhere is left out at its
-- end. A leading slash or point stays.
def parent (path : String) : Option String :=
  match pieces path with
  | [] => none
  | lead :: rest =>
    if isVoid lead then
      match dropEnd isVoid rest with
      | [] => if lead = "." then some "" else none
      | named =>
        match dropEnd isVoid named.dropLast with
        | [] => some (if lead = "." then "." else "/")
        | kept => some ("/".intercalate (lead :: kept))
    else some ("/".intercalate (dropEnd isVoid (dropEnd isVoid (lead :: rest)).dropLast))

-- The path that has to lead to a directory if there is to be a file at a path.
def container (path : String) : String :=
  match (dropEnd (· = "") (pieces path)).dropLast with
  | [] => if path.startsWith "/" then "/" else "./"
  | kept => "/".intercalate kept ++ "/"

end FilePath

-- A file that keeps nothing: what is written to it goes elsewhere.
inductive Device
  | void
  | output
  | errors
deriving DecidableEq, Repr

namespace Device

def all : List Device :=
  [void, output, errors]

def path : Device → String
  | void   => "/dev/null"
  | output => "/dev/stdout"
  | errors => "/dev/stderr"

def at? (path : String) : Option Device :=
  if path.startsWith "/" && !FilePath.asksDirectory path then
    all.find? fun d => FilePath.steps d.path = FilePath.steps path
  else none

end Device

namespace Files

-- Why no file can be written to a path.
def refusal (files : Files) (path : String) : Option String :=
  match files (FilePath.container path) with
  | .missing => some Place.missingReason
  | .beyondFile | .file _ => some Place.beyondFileReason
  | .tooLong => some Place.tooLongReason
  | .locked => some Place.lockedReason
  | .directory =>
    if FilePath.asksDirectory path then some Place.directoryReason
    else match files path with
      | .directory  => some Place.directoryReason
      | .locked     => some Place.lockedReason
      | .beyondFile => some Place.beyondFileReason
      | .tooLong    => some Place.tooLongReason
      | .file _ | .missing => none

-- The bytes that a path, and a name in it, may have.
def pathLimit : Nat := 4095
def nameLimit : Nat := 255

-- What a directory holds, each by the names that lead to it.
abbrev Tree := List (List String × Place)

namespace Tree

def at? (t : Tree) (path : List String) : Place :=
  match t.find? (·.1 = path) with
  | some (_, place) => place
  | none => if path = [] || t.any (fun e => path.isPrefixOf e.1) then .directory else .missing

-- Follows names from a directory, or, if it is `outside`, from one of those that it stands in.
-- There is nothing else there.
def follow (t : Tree) (outside : Bool) (here : List String) : List String → Place
  | [] => .directory
  | ".." :: names => follow t (outside || here = []) here.dropLast names
  | name :: names =>
    if nameLimit < name.utf8ByteSize then .tooLong
    else if outside then .missing
    else match t.at? (here ++ [name]) with
      | .file content => if names = [] then .file content else .beyondFile
      | .directory => follow t false (here ++ [name]) names
      | place => place

end Tree

-- What is at hand by absolute paths: the devices, which are empty, and a place for what does not last.
def surroundings : Tree :=
  Device.all.map (fun d => (FilePath.steps d.path, .file [])) ++ [(["tmp"], .directory)]

-- A directory with some files, in which relative paths are followed. Above the root is the root
-- again.
def ofList (entries : List (String × List UInt8)) : Files := fun path =>
  let tree : Tree := entries.map fun e => (FilePath.steps e.1, .file e.2)
  let names := FilePath.steps path
  let place :=
    if path.startsWith "/" then surroundings.follow false [] (names.dropWhile (· = ".."))
    else tree.follow false [] names
  if pathLimit < path.utf8ByteSize then .tooLong
  else match place with
    | .file content => if FilePath.asksDirectory path then .beyondFile else .file content
    | place => place

end Files

end ReportExchange
