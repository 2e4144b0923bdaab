import Earley.Path
import Earley.Text.Bytes
import Earley.Text.Quoted
import Earley.Text.Utf8

namespace Earley

open Earley.Text

/-- What stands at a path. -/
inductive Found where
  | file (bytes : List Nat)
  | directory
  | missing
  | behindFile
  | longName
deriving DecidableEq, Repr

/-- What stands at each path. -/
abbrev Files := Path → Found

namespace Files

/-- Why a file has no text. -/
inductive Fault where
  | missing (path : Path)
  | behindFile (path : Path)
  | directory (path : Path)
  | longName (path : Path)
  | nulInPath
  | notText (fault : Utf8.Fault)
deriving DecidableEq, Repr

/-- The message of the system, with its number, for a path. -/
def systemMessage (number : Nat) (what : String) (p : Path) : String :=
  "[Errno " ++ Decimal.integerText number ++ "] " ++ what ++ ": " ++ quoted p.text

/-- The message for bytes that are no text. -/
def textMessage (f : Utf8.Fault) : String :=
  BadBytes.message ⟨"utf-8", f.reason.message, f.first, f.start, f.count⟩

def Fault.message : Fault → String
  | .missing p => systemMessage 2 "No such file or directory" p
  | .behindFile p => systemMessage 20 "Not a directory" p
  | .directory p => systemMessage 21 "Is a directory" p
  | .longName p => systemMessage 36 "File name too long" p
  | .nulInPath => "embedded null byte"
  | .notText f => textMessage f

/-- A text whose lines all end in a line feed: a return, or a return and a line feed, is one. -/
def foldReturns : List Char → List Char
  | '\r' :: '\n' :: rest => '\n' :: foldReturns rest
  | '\r' :: rest => '\n' :: foldReturns rest
  | c :: rest => c :: foldReturns rest
  | [] => []

/-- No path of a system has the character that ends texts there. -/
def hasNul (p : Path) : Bool :=
  p.parts.any (·.contains '\x00')

/-- Whether something stands at a path. A name that is too long is no answer. -/
def has (files : Files) (p : Path) : Except Fault Bool :=
  if hasNul p then .ok false
  else match files p with
    | .file _ | .directory => .ok true
    | .missing | .behindFile => .ok false
    | .longName => .error (.longName p)

/-- The text of a file. -/
def read (files : Files) (p : Path) : Except Fault String :=
  if hasNul p then .error .nulInPath
  else match files p with
    | .file bytes => match Utf8.decode bytes with
      | .ok cs => .ok (String.ofList (foldReturns cs))
      | .error fault => .error (.notText fault)
    | .directory => .error (.directory p)
    | .missing => .error (.missing p)
    | .behindFile => .error (.behindFile p)
    | .longName => .error (.longName p)

/-- Files that were looked up beforehand; all others are missing. -/
def ofFound (found : List (Path × Found)) : Files := fun p =>
  ((found.find? (·.1 == p)).map Prod.snd).getD .missing

/-- The longest name, in bytes. -/
def maxName : Nat := 255

/-- The longest path, in bytes. -/
def maxPath : Nat := 4095

/-- The parts of a file's place in a directory, and its bytes. -/
abbrev Place := List (List Char) × List Nat

/-- What stands at a place in a directory. -/
def foundAt (places : List Place) (parts : List (List Char)) : Found :=
  match places.find? (·.1 == parts) with
  | some (_, bytes) => .file bytes
  | none =>
    if parts.isEmpty || places.any fun (place, _) => parts.isPrefixOf place then .directory
    else if places.any fun (place, _) => place.isPrefixOf parts then .behindFile
    else .missing

/-- Follows parts from a place in a directory: two dots lead back, and only a directory leads on. -/
def walk (places : List Place) (here : List (List Char)) : List (List Char) → Found
  | [] => foundAt places here
  | part :: rest =>
    match foundAt places here with
    | .directory =>
      if part == ['.', '.'] then
        -- Nothing is known of what is around the directory, but for itself.
        if here.isEmpty then (if rest.all (· == ['.', '.']) then .directory else .missing)
        else walk places here.dropLast rest
      else if maxName < (Utf8.encode part).length then .longName
      else walk places (here ++ [part]) rest
    | .file _ => .behindFile
    | other => other

/-- The files of one directory by their names; outside of it there is nothing but other
directories' roots. -/
def ofDirectory (entries : List (String × List Nat)) : Files := fun p =>
  if maxPath < (Utf8.encode p.text.toList).length then .longName
  else if p.root.isEmpty then
    walk (entries.map fun (name, bytes) => ((Path.ofText name).parts, bytes)) [] p.parts
  else if p.parts.isEmpty then .directory
  else .missing

end Files

end Earley
