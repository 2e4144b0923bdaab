import Earley.Text.Blank

namespace Earley

open Earley.Text

/-- A path, as it is written: names between slashes, behind an optional root. Its root is empty, one
slash or two; none of its parts is empty or a single dot. -/
structure Path where
  root : List Char
  parts : List (List Char)
deriving DecidableEq, Repr

namespace Path

/-- The slashes that make up the root of a text. Three or more are like one. -/
def rootOf : List Char → List Char
  | '/' :: '/' :: '/' :: _ => ['/']
  | '/' :: '/' :: _ => ['/', '/']
  | '/' :: _ => ['/']
  | _ => []

/-- The path that a text names. -/
def ofText (text : String) : Path :=
  ⟨rootOf text.toList,
    (pieces (· == '/') text.toList).filter fun part => !part.isEmpty && part != ['.']⟩

/-- The path as it is shown; the path without parts is a dot. -/
def text (p : Path) : String :=
  match p.root, p.parts with
  | [], [] => "."
  | root, parts => String.ofList (root ++ joinWith ['/'] parts)

/-- The last part. -/
def name (p : Path) : List Char :=
  p.parts.getLast?.getD []

/-- A name in two: the text before its last dot, and the rest. A dot at either end does not cut. -/
def cutName (name : List Char) : List Char × List Char :=
  let behind := (name.reverse.takeWhile (· != '.')).reverse
  let front := name.take (name.length - behind.length - 1)
  if behind.isEmpty || front.isEmpty then (name, []) else (front, '.' :: behind)

/-- The name without its ending. -/
def stem (p : Path) : String :=
  String.ofList (cutName p.name).1

/-- The ending of the name, with its dot. -/
def ending (p : Path) : String :=
  String.ofList (cutName p.name).2

end Path

end Earley
