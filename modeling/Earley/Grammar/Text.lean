import Earley.Grammar
import Earley.Text.Source
import Earley.Text.Word

namespace Earley.Grammar

open Earley.Text

/-- What is wrong with a line. -/
inductive LineError where
  | noArrow
  | badLeft (text : String)
  | emptyAlternative
  | badSymbol (text : String)
  | badRule (fault : Rule.Fault)
deriving DecidableEq, Repr

def LineError.message : LineError → String
  | .noArrow => "Expected: LHS -> SYMBOL ... [weight]"
  | .badLeft text => "Bad left-hand side: " ++ quoted text
  | .emptyAlternative => "Empty alternative"
  | .badSymbol text => "Bad symbol: " ++ quoted text
  | .badRule fault => fault.message

/-- The weight that ends a line, and the line before it. -/
def splitWeight? (line : List Char) : Option (List Char × Decimal.Written) :=
  match (trimRight line).reverse with
  | ']' :: back =>
    match back.dropWhile (· != '[') with
    | '[' :: front =>
      (Decimal.readWritten? (back.takeWhile (· != '[')).reverse).map (trim front.reverse, ·)
    | _ => none
  | _ => none

/-- What stands before and after the first arrow. -/
def splitArrow? : List Char → Option (List Char × List Char)
  | '-' :: '>' :: rest => some ([], rest)
  | c :: rest => (splitArrow? rest).map fun (left, right) => (c :: left, right)
  | [] => none

/-- The symbols of one alternative. -/
def readAlternative (cs : List Char) : Except LineError (List Symbol) :=
  let parts := items cs
  if parts.isEmpty then .error .emptyAlternative
  else match parts.find? (!isWord ·) with
    | some bad => .error (.badSymbol (String.ofList bad))
    | none => .ok (parts.map String.ofList)

/-- Adds one rule per alternative, up to the first that has a fault. -/
def addAlternatives (lhs : Symbol) (weight : Weight) (g : Grammar) :
    List (List Char) → Grammar × Option LineError
  | [] => (g, none)
  | part :: rest =>
    match readAlternative part with
    | .error fault => (g, some fault)
    | .ok rhs =>
      match g.add lhs rhs (.number weight) with
      | .error fault => (g, some (.badRule fault))
      | .ok next => addAlternatives lhs weight next rest

/-- Reads one line into a grammar. Rules that come before a fault in the line stay. -/
def readLine (g : Grammar) (line : List Char) : Grammar × Option LineError :=
  let (body, weight) := match splitWeight? line with
    | some (front, written) => (front, written.toBinary64)
    | none => (line, Binary64.one)
  match splitArrow? body with
  | none => (g, some .noArrow)
  | some (left, right) =>
    let lhs := trim left
    if isWord lhs then
      addAlternatives (String.ofList lhs) weight g (pieces (· == '|') right)
    else (g, some (.badLeft (String.ofList lhs)))

/-- The rules of a text up to its first fault, and that fault. -/
def readAll (text : String) : Grammar × Option (LineFault LineError) :=
  readText readLine empty text

/-- The grammar that a text describes. A line `NP -> DET N | PN [0.8]` stands for one rule per
alternative, all with the weight in brackets, or with weight one if there is none. -/
def ofText (text : String) : Except (LineFault LineError) Grammar :=
  match readAll text with
  | (g, none) => .ok g
  | (_, some fault) => .error fault

/-- One rule as a line. -/
def ruleLine (r : Rule) : String :=
  if r.weight.same Binary64.one then r.text else r.text ++ " [" ++ Weight.text r.weight ++ "]"

/-- The lines of rules that follow a rule for `last`: a blank line wherever the left-hand side
changes. -/
def linesAfter (last : Symbol) : List Rule → List String
  | [] => []
  | r :: rest =>
    (if r.lhs == last then [] else [""]) ++ ruleLine r :: linesAfter r.lhs rest

/-- The text of a grammar. -/
def toText (g : Grammar) : String :=
  "\n".intercalate <| match g.rules with
    | [] => []
    | r :: rest => ruleLine r :: linesAfter r.lhs rest

end Earley.Grammar
