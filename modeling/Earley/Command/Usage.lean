import Earley.Text.Column

namespace Earley.Command

open Earley.Text

/-- What an option stands for, and whether a value follows it. -/
inductive Form where
  | help
  | switch
  | text
  | number
deriving DecidableEq, Repr

namespace Form

def takesValue : Form → Bool
  | .text | .number => true
  | _ => false

end Form

/-- An option. Its name begins with two dashes; the purpose may stay untold. -/
structure Flag where
  name : String
  form : Form
  purpose : String := ""
deriving DecidableEq, Repr

namespace Flag

/-- Every command has this option, and it alone has a short name. -/
def help : Flag := ⟨"--help", .help, "show this help message and exit"⟩

def shortHelp : String := "-h"

/-- What stands for the value of an option. -/
def placeholder (f : Flag) : String :=
  String.ofList ((f.name.toList.drop 2).map fun c => if c == '-' then '_' else c.toUpper)

/-- The option with its value. -/
def written (f : Flag) : String :=
  if f.form == .help then shortHelp
  else if f.form.takesValue then f.name ++ " " ++ f.placeholder
  else f.name

/-- The option in the list of options. -/
def heading (f : Flag) : String :=
  if f.form == .help then shortHelp ++ ", " ++ f.name else f.written

end Flag

/-- What a command takes besides options: one word, several words, or another command's name with
all that follows. -/
inductive Operand where
  | one (name purpose : String)
  | many (name purpose : String)
  | command (names : List (String × String))
deriving DecidableEq, Repr

namespace Operand

/-- The names to choose from, in braces. -/
def choices (names : List (String × String)) : String :=
  "\x7b" ++ ",".intercalate (names.map Prod.fst) ++ "\x7d"

/-- The parts of the operand in the line of the command. -/
def written : Operand → List String
  | .one name _ => [name]
  | .many name _ => [name, "[" ++ name ++ " ...]"]
  | .command names => [choices names, "..."]

end Operand

/-- What a command takes. -/
structure Usage where
  program : String
  description : String := ""
  flags : List Flag := []
  operand : Option Operand := none
deriving DecidableEq, Repr

namespace Usage

/-- The options with the one that every command has. -/
def allFlags (u : Usage) : List Flag := .help :: u.flags

/-- The width of a line. -/
def width : Nat := 78

/-- The column at which purposes begin, at most. -/
def maxColumn : Nat := 24

/-- Puts parts into lines that begin at `indent`; `line` is the line so far, not yet indented. -/
def wrap (indent : Nat) (line : String) : List String → List String
  | [] => if line.isEmpty then [] else [spaces indent ++ line]
  | part :: rest =>
    if line.isEmpty then wrap indent part rest
    else if width < indent + line.length + 1 + part.length then
      (spaces indent ++ line) :: wrap indent part rest
    else wrap indent (line ++ " " ++ part) rest

/-- The line of the command; where one is not enough, the operand begins a new one. -/
def line (u : Usage) : String :=
  let options := u.allFlags.map fun f => "[" ++ f.written ++ "]"
  let operands := (u.operand.map Operand.written).getD []
  let front := "usage: " ++ u.program
  let single := " ".intercalate (front :: (options ++ operands))
  if single.length ≤ width then single
  else
    let indent := front.length + 1
    let rows := wrap indent "" options ++ wrap indent "" operands
    "\n".intercalate (match rows with
      | [] => [front]
      | first :: more => (front ++ String.ofList (first.toList.drop (indent - 1))) :: more)

/-- A heading at a depth and its purpose, which begins at `column`, on a line of its own if the
heading is too long. -/
def row (depth column : Nat) (heading purpose : String) : String :=
  let room := column - depth - 2
  if purpose.isEmpty then spaces depth ++ heading
  else if heading.length ≤ room then
    spaces depth ++ padRight room heading ++ "  " ++ purpose
  else spaces depth ++ heading ++ "\n" ++ spaces column ++ purpose

/-- The headings of the operand. -/
def operandHeadings (u : Usage) : List (Nat × String) :=
  match u.operand with
  | none => []
  | some (.one name _) | some (.many name _) => [(2, name)]
  | some (.command names) => (2, Operand.choices names) :: names.map fun (name, _) => (4, name)

/-- The column at which purposes begin: two behind the longest heading. -/
def column (u : Usage) : Nat :=
  let headings := u.operandHeadings ++ u.allFlags.map fun f => (2, f.heading)
  let longest := (headings.map fun (_, heading) => heading.length).foldl max 0
  min (longest + 4) maxColumn

/-- The rows of the operand. -/
def operandRows (u : Usage) : List String :=
  match u.operand with
  | none => []
  | some (.one name purpose) | some (.many name purpose) => [row 2 u.column name purpose]
  | some (.command names) =>
    row 2 u.column (Operand.choices names) "" ::
      names.map fun (name, purpose) => row 4 u.column name purpose

/-- A part of the text, behind an empty line; without rows there is none. -/
def paragraph (title : String) (rows : List String) : List String :=
  if rows.isEmpty then [] else "" :: (title ++ ":") :: rows

/-- The text that tells what the command takes, in lines of a fixed width. -/
def help (u : Usage) : String :=
  let description := if u.description.isEmpty then [] else ["", u.description]
  let rows := [u.line] ++ description ++ paragraph "positional arguments" u.operandRows ++
    paragraph "options" (u.allFlags.map fun f => row 2 u.column f.heading f.purpose)
  "\n".intercalate rows ++ "\n"

end Usage

end Earley.Command
