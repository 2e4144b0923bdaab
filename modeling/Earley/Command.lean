import Earley.Api.Input
import Earley.Api.Route
import Earley.Command.Arguments

namespace Earley

open Earley.Api (Collection)

/-- What a sentence is to be parsed with, and how its trees are shown. A name or a limit is `none`
if its option was given but set to nothing. -/
structure ParseOptions where
  sentence : List String
  grammar : Option String := some Api.defaultName
  lexicon : Option String := some Api.defaultName
  grammarFile : Option String := none
  lexiconFile : Option String := none
  limit : Option Int := some Forest.defaultLimit
  remote : Bool := false
  json : Bool := false
deriving DecidableEq, Repr

/-- A command. -/
inductive Command where
  | help (usage : Command.Usage)
  | parse (options : ParseOptions)
  | check (file : String)
  | add (collection : Collection) (file : String) (name : Option String)
  | list (collection : Collection)
  | show (collection : Collection) (id : String)
  | print (collection : Collection) (id : String)
  | delete (collection : Collection) (id : String)
deriving DecidableEq, Repr

namespace Command

/-- The program's name. -/
def program : String := "buffalo"

/-- The command lines of the program. -/
def mainUsage : Usage :=
  { program, description := "Buffalo chart parser CLI",
    operand := some (.command [("parse", "Parse a sentence"),
      ("check", "Validate a .grammar or .lex file"), ("grammar", "Stored grammar management"),
      ("lexicon", "Stored lexicon management")]) }

/-- The usage of a command with its own words. -/
def usageOf (words : List String) (flags : List Flag) (operand : Option Operand) : Usage :=
  { program := " ".intercalate (program :: words), flags, operand }

def parseUsage : Usage :=
  usageOf ["parse"]
    [⟨"--grammar", .text, "Grammar name (default: english)"⟩,
     ⟨"--lexicon", .text, "Lexicon name (default: english)"⟩,
     ⟨"--grammar-file", .text, "Path to a .grammar file"⟩,
     ⟨"--lexicon-file", .text, "Path to a .lex file"⟩,
     ⟨"--max-trees", .number, ""⟩,
     ⟨"--remote", .switch, "Parse through the API server"⟩,
     ⟨"--json", .switch, "Print the full result as JSON"⟩]
    (some (.many "words" "Sentence words"))

def checkUsage : Usage :=
  usageOf ["check"] [] (some (.one "file" "Path to .grammar or .lex file"))

/-- The ending of the names of a collection's files. -/
def fileEnding : Collection → String
  | .grammars => ".grammar"
  | .lexicons => ".lex"

/-- The name of a collection's member with a capital. -/
def capital : Collection → String
  | .grammars => "Grammar"
  | .lexicons => "Lexicon"

/-- What the command that shows a member prints. -/
def shownParts : Collection → String
  | .grammars => "Show grammar rules"
  | .lexicons => "Show lexicon entries as JSON"

/-- The commands of a collection. -/
def collectionUsage (c : Collection) : Usage :=
  usageOf [c.singular] []
    (some (.command [("add", "Add " ++ c.singular ++ " from " ++ fileEnding c ++ " file"),
      ("list", "List stored " ++ c.segment), ("show", shownParts c),
      ("dsl", "Show " ++ c.singular ++ " as DSL"), ("delete", "Delete a stored " ++ c.singular)]))

def addUsage (c : Collection) : Usage :=
  usageOf [c.singular, "add"] [⟨"--name", .text, capital c ++ " name (default: filename)"⟩]
    (some (.one "file" ("Path to " ++ fileEnding c ++ " file")))

def listUsage (c : Collection) : Usage := usageOf [c.singular, "list"] [] none

/-- The usage of a command that takes an identifier. -/
def memberUsage (c : Collection) (word : String) : Usage :=
  usageOf [c.singular, word] [] (some (.one (c.singular ++ "_id") (capital c ++ " ID")))

/-- The command in complete arguments. -/
def finish (u : Usage) (texts : List String) (make : Arguments → Option Command) :
    Except Stop Command := do
  let a ← Arguments.ofTexts u texts
  match a.isComplete u, make a with
  | true, some command => .ok command
  | _, _ => .error .misuse

/-- A text that is there and not empty. -/
def nonempty (text : Option String) : Option String :=
  text.filter fun s => !s.isEmpty

def ParseOptions.ofArguments (a : Arguments) : ParseOptions :=
  { sentence := a.words
    grammar := a.textOr "--grammar" Api.defaultName
    lexicon := a.textOr "--lexicon" Api.defaultName
    grammarFile := nonempty (a.text? "--grammar-file")
    lexiconFile := nonempty (a.text? "--lexicon-file")
    limit := a.numberOr "--max-trees" Forest.defaultLimit
    remote := a.isOn "--remote"
    json := a.isOn "--json" }

/-- Reads the name of a command and hands it what follows. What stood before the name and has no use
is found last. -/
def choose (u : Usage) (texts : List String) (none : Except Stop Command)
    (some : String → List String → Except Stop Command) : Except Stop Command := do
  let a ← Arguments.ofTexts u texts
  let chosen ← match a.words with
    | [] => if a.strange then .error .misuse else none
    | name :: rest => some name rest
  if a.strange then .error .misuse else .ok chosen

/-- The command of a collection. -/
def ofCollectionTexts (c : Collection) (texts : List String) : Except Stop Command :=
  choose (collectionUsage c) texts (.error .misuse) fun name rest =>
    let member := fun (make : String → Command) =>
      finish (memberUsage c name) rest fun a => a.words.head?.map make
    match name with
    | "add" => finish (addUsage c) rest fun a =>
      a.words.head?.map fun file => .add c file (nonempty (a.text? "--name"))
    | "list" => finish (listUsage c) rest fun _ => some (.list c)
    | "show" => member (.show c)
    | "dsl" => member (.print c)
    | "delete" => member (.delete c)
    | _ => .error .misuse

/-- The command that the program's arguments name. Without arguments it is help. -/
def ofTexts (texts : List String) : Except Stop Command :=
  choose mainUsage texts (.ok (.help mainUsage)) fun name rest =>
    match name with
    | "parse" => finish parseUsage rest fun a => some (.parse (ParseOptions.ofArguments a))
    | "check" => finish checkUsage rest fun a => a.words.head?.map .check
    | "grammar" => ofCollectionTexts .grammars rest
    | "lexicon" => ofCollectionTexts .lexicons rest
    | _ => .error .misuse

end Command

end Earley
