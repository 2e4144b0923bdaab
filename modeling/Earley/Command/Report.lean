import Earley.Client
import Earley.Command
import Earley.Files
import Earley.Json.Plain

namespace Earley.Command

open Earley.Api (Collection Service)
open Earley.Client (Call)
open Earley.Text (padLeft)

/-- How a command ended: with a code, or by a fault of a file that it does not answer for. -/
inductive Ending where
  | code (n : Nat)
  | fault (f : Files.Fault)
deriving DecidableEq, Repr

/-- What a command printed, and how it ended. -/
structure Report where
  output : String
  ending : Ending
deriving DecidableEq, Repr

namespace Report

/-- The text of lines. -/
def linesText (lines : List String) : String :=
  String.join (lines.map fun line => line ++ "\n")

/-- Lines, and a code at the end. -/
def ofLines (lines : List String) (code : Nat := 0) : Report :=
  ⟨linesText lines, .code code⟩

/-- The line of an error. -/
def errorLine (message : String) : String := "✗ Error: " ++ message

/-- An error behind what was printed before. -/
def failed (message : String) : Report := ofLines [errorLine message] 1

/-- The end by a fault, with nothing printed. -/
def broken (f : Files.Fault) : Report := ⟨"", .fault f⟩

/-- Why a line cannot be made: it needs a member that is not there, or a column for a value that
cannot stand in one. -/
inductive LineFault where
  | noMember (name : String)
  | noColumn (value : Json)

def LineFault.message : LineFault → String
  | .noMember name => Text.quoted name
  | .noColumn value =>
    "unsupported format string passed to " ++ value.formName ++ ".__format__"

/-- A line, or why it cannot be made. -/
abbrev Line := Except LineFault String

/-- Lines up to the first that cannot be made; there is the error. -/
def ofParts (printed : List String) : List Line → Report
  | [] => ofLines printed.reverse
  | .ok line :: rest => ofParts (line :: printed) rest
  | .error fault :: _ => ofLines (errorLine fault.message :: printed).reverse 1

end Report

open Report (Line LineFault)

/-- A member that must be there. -/
def member (j : Json) (name : String) : Except LineFault Json :=
  match j.get? name with
  | some value => .ok value
  | none => .error (.noMember name)

/-- A value in a column that is as wide as names mostly are. -/
def nameColumn (value : Json) : Line :=
  match value.inColumn? 20 with
  | some text => .ok text
  | none => .error (.noColumn value)

/-- A line around a member. -/
def memberLine (before : String) (j : Json) (name : String) (after : String := "") :
    Line :=
  (member j name).map fun value => before ++ value.plain ++ after

/-- The elements of a member that is a list. -/
def elements (j : Json) (name : String) : Except LineFault (List Json) :=
  (member j name).map fun value => value.array?.getD []

/-- Lines for each element of a list. -/
def elementLines (j : Json) (name : String) (line : Json → Line) : List Line :=
  match elements j name with
  | .ok values => values.map line
  | .error fault => [.error fault]

/-- The text of a list of texts. -/
def joined (j : Json) : String :=
  " ".intercalate ((j.array?.getD []).map Json.plain)

/-- Why a sentence was not parsed. An option that was set to nothing gives no name and no limit. -/
inductive ParseFault where
  | file (fault : Files.Fault)
  | grammarText (fault : Text.LineFault Grammar.LineError)
  | lexiconText (fault : Text.LineFault Lexicon.LineError)
  | noGrammar (name : String)
  | noLexicon (name : String)
  | unnamed
  | unlimited
  | limit (fault : Parser.LimitFault)
  | forest (fault : Forest.Fault)
  | client (fault : Client.Fault)

def ParseFault.message : ParseFault → String
  | .file f => f.message
  | .grammarText f => f.describe Grammar.LineError.message
  | .lexiconText f => f.describe Lexicon.LineError.message
  | .noGrammar name => "Unknown grammar: " ++ name ++ " (use --remote for stored grammars)"
  | .noLexicon name => "Unknown lexicon: " ++ name ++ " (use --remote for stored lexicons)"
  | .unnamed => "unhashable type: 'list'"
  | .unlimited => "'<' not supported between instances of 'list' and 'int'"
  | .limit f => f.message
  | .forest f => f.message
  | .client f => f.message

/-- The grammar of a file, or else the built-in one. -/
def localGrammar (files : Files) (o : ParseOptions) : Except ParseFault Grammar :=
  match o.grammarFile, o.grammar with
  | some file, _ => do
    let text ← (files.read (.ofText file)).mapError .file
    (Grammar.ofText text).mapError .grammarText
  | none, none => .error .unnamed
  | none, some name => match English.grammar? name with
    | some g => .ok g
    | none => .error (.noGrammar name)

/-- The lexicon of a file, or else the built-in one. -/
def localLexicon (files : Files) (o : ParseOptions) : Except ParseFault Lexicon :=
  match o.lexiconFile, o.lexicon with
  | some file, _ => do
    let text ← (files.read (.ofText file)).mapError .file
    (Lexicon.ofText text).mapError .lexiconText
  | none, none => .error .unnamed
  | none, some name => match English.lexicon? name with
    | some lex => .ok lex
    | none => .error (.noLexicon name)

/-- The parser that the options ask for. -/
def localParser (o : ParseOptions) (g : Grammar) (lex : Lexicon) : Except ParseFault Parser :=
  match o.limit with
  | none => .error .unlimited
  | some limit => (Parser.withLimit g lex limit).mapError .limit

/-- Parses without the service. -/
def parseHere (files : Files) (o : ParseOptions) (tokens : List String) :
    Except ParseFault Json := do
  let g ← localGrammar files o
  let lex ← localLexicon files o
  let parser ← localParser o g lex
  let outcome ← (parser.parse tokens).mapError .forest
  .ok outcome.toJson

/-- Parses through the service. -/
def parseThere (o : ParseOptions) (tokens : List String) (s : Service) :
    Except ParseFault Json × Service :=
  let (answer, s) := Client.send (.sentence tokens o.grammar o.lexicon o.limit) s
  (answer.mapError .client, s)

/-- The trees of an answer, numbered from one. -/
def treeLines (trees : List Json) : List String :=
  (trees.zipIdx 1).map fun (tree, n) =>
    padLeft 3 (Decimal.integerText n) ++ ". " ++ ((tree.get? "bracketed").getD .null).plain

/-- The lines of an answer. -/
def answerLines (answer : Json) : List String :=
  let field := fun name => (answer.get? name).getD .null
  let list := fun name => (field name).array?.getD []
  ("Input: " ++ joined (field "input")) ::
    match list "errors" with
    | [] => ("✓ " ++ (field "count").plain ++ " parse(s)") :: "" :: treeLines (list "trees")
    | errors => errors.map fun e => "✗ " ++ e.plain

/-- The report of an answer. An answer without trees is a failure. -/
def answerReport (o : ParseOptions) : Except ParseFault Json → Report
  | .error fault => .failed fault.message
  | .ok answer =>
    let trees := ((answer.get? "trees").bind Json.array?).getD []
    .ofLines (if o.json then [answer.toBlock] else answerLines answer)
      (if trees.isEmpty then 1 else 0)

def runParse (files : Files) (o : ParseOptions) (s : Service) : Report × Service :=
  let tokens := words (" ".intercalate o.sentence)
  if o.remote then
    let (answer, s) := parseThere o tokens s
    (answerReport o answer, s)
  else (answerReport o (parseHere files o tokens), s)

/-- The report on a file that is not there. -/
def noFile (file : String) : Report := .ofLines ["✗ File not found: " ++ file] 1

/-- The report on a text that is valid. -/
def validReport (file : String) (counts : String) : Report :=
  .ofLines ["✓ " ++ file ++ " is valid", "  " ++ counts]

/-- The report on a text that cannot be read. -/
def faultReport {ε : Type} (message : ε → String) (f : Text.LineFault ε) : Report :=
  .ofLines ["Parse error: " ++ f.describe message] 1

def count (n : Nat) (what : String) : String := Decimal.integerText n ++ " " ++ what

def lexiconReport (file text : String) : Report :=
  match Lexicon.ofText text with
  | .ok lex => validReport file (count lex.keys.length "words" ++ ", " ++ count lex.size "entries")
  | .error f => faultReport Lexicon.LineError.message f

/-- A grammar with warnings is not valid. -/
def grammarReport (file text : String) : Report :=
  match Grammar.ofText text with
  | .error f => faultReport Grammar.LineError.message f
  | .ok g => match g.warnings with
    | [] => validReport file
      (count g.rules.length "rules" ++ ", " ++ count g.categories.length "non-terminals")
    | warnings =>
      .ofLines (("❌ Validation failed for " ++ file ++ ":") ::
        warnings.map fun w => "  - " ++ w.message) 1

/-- Checks the text of a file; the ending of its name tells a lexicon. -/
def runCheck (files : Files) (file : String) : Report :=
  let path := Path.ofText file
  match files.has path with
  | .error f => .broken f
  | .ok false => noFile file
  | .ok true => match files.read path with
    | .error f => .broken f
    | .ok text => if path.ending == fileEnding .lexicons then lexiconReport file text
      else grammarReport file text

/-- What is printed of a new source. -/
def createdLines (c : Collection) (told : Json) : List Line :=
  let counted := match c with
    | .grammars => "rules"
    | .lexicons => "entries"
  let warnings := match c with
    | .grammars => ((told.get? "warnings").bind Json.array?).getD []
    | .lexicons => []
  [memberLine ("✓ Created " ++ c.singular ++ ": ") told "id", memberLine "  name: " told "name",
    memberLine ("  " ++ counted ++ ": ") told c.countName] ++
    warnings.map fun w => .ok ("  ! " ++ w.plain)

/-- The line of a source in a list. -/
def summaryLine (c : Collection) (j : Json) : Line := do
  let id ← member j "id"
  let name ← member j "name"
  let column ← nameColumn name
  let size ← member j c.countName
  let counted := match c with
    | .grammars => "rules"
    | .lexicons => "entries"
  .ok (id.plain ++ "  " ++ column ++ " (" ++ size.plain ++ " " ++ counted ++ ")")

/-- The lines of a list of sources. -/
def listLines (c : Collection) (told : Json) : List Line :=
  match told.array?.getD [] with
  | [] => [.ok ("No " ++ c.segment ++ ".")]
  | sources => sources.map (summaryLine c)

def ruleLine (j : Json) : Line := do
  let lhs ← member j "lhs"
  let rhs ← member j "rhs"
  let weight ← member j "weight"
  .ok ("  " ++ lhs.plain ++ " -> " ++ joined rhs ++ "  [" ++ weight.plain ++ "]")

/-- The lines of a source: a grammar's rules in lines, a lexicon as JSON. -/
def showLines (c : Collection) (told : Json) : List Line :=
  match c with
  | .grammars =>
    [memberLine "ID: " told "id", memberLine "Name: " told "name",
      memberLine "Created: " told "created_at", .ok "",
      (elements told "rules").map fun rules =>
        "Rules (" ++ Decimal.integerText rules.length ++ "):"] ++
      elementLines told "rules" ruleLine
  | .lexicons => [.ok told.toBlock]

/-- The lines of a source's text. -/
def textLines (id : String) (told : Json) : List Line :=
  [memberLine "# " told "name" (" (" ++ id ++ ")"), .ok "", memberLine "" told "dsl"]

/-- Makes a call and prints lines of what it tells. -/
def runCall (call : Call) (lines : Json → List Line) (s : Service) : Report × Service :=
  match Client.send call s with
  | (.ok told, s) => (.ofParts [] (lines told), s)
  | (.error f, s) => (.failed f.message, s)

/-- Keeps the text of a file under a name, or else under the file's. A lexicon's file that has no
text is an error like others; a grammar's ends the command. -/
def runAdd (files : Files) (c : Collection) (file : String) (name : Option String) (s : Service) :
    Report × Service :=
  let path := Path.ofText file
  match files.has path with
  | .error f => (.broken f, s)
  | .ok false => (noFile file, s)
  | .ok true => match files.read path, c with
    | .error f, .grammars => (.broken f, s)
    | .error f, .lexicons => (.failed f.message, s)
    | .ok text, _ =>
      runCall (.source c (name.getD path.stem) text) (createdLines c) s

/-- The paths that a command may read. -/
def paths : Command → List Path
  | .parse o =>
    if o.remote then [] else (o.grammarFile.toList ++ o.lexiconFile.toList).map Path.ofText
  | .check file | .add _ file _ => [.ofText file]
  | _ => []

/-- Runs a command. With the report goes the service as the command left it. -/
def run (files : Files) (s : Service) : Command → Report × Service
  | .help u => (⟨u.help, .code 0⟩, s)
  | .parse o => runParse files o s
  | .check file => (runCheck files file, s)
  | .add c file name => runAdd files c file name s
  | .list c => runCall (.list c) (listLines c) s
  | .show c id => runCall (.get c id) (showLines c) s
  | .print c id => runCall (.text c id) (textLines id) s
  | .delete c id => runCall (.delete c id) (fun _ => [.ok ("✓ Deleted: " ++ id)]) s

/-- The report where there is no command to run. -/
def Stop.report : Stop → Report
  | .help u => ⟨u.help, .code 0⟩
  | .misuse => ⟨"", .code 2⟩

/-- Runs the command that arguments name. -/
def runTexts (files : Files) (s : Service) (texts : List String) : Report × Service :=
  match ofTexts texts with
  | .ok command => run files s command
  | .error stop => (stop.report, s)

end Earley.Command
