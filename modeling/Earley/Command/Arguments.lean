import Earley.Command.Usage
import Earley.Decimal.Reading

namespace Earley.Command

open Earley.Text

/-- Why a command does not run. -/
inductive Stop where
  | help (usage : Usage)
  | misuse
deriving DecidableEq, Repr

/-- An argument as a command sees it. A faulty one names an option in a way that it does not
admit. -/
inductive Argument where
  | word (text : String)
  | divider
  | option (flag : Flag) (given : Option String)
  | faulty
  | unknown (text : String)
deriving DecidableEq, Repr

namespace Argument

/-- Whether a text is a negative number: such texts are words. A line feed may stand behind. -/
def isNegative (cs : List Char) : Bool :=
  match cs with
  | '-' :: rest =>
    let body := if rest.getLast? == some '\n' then rest.dropLast else rest
    match body.dropWhile isDecimal with
    | [] => !body.isEmpty
    | '.' :: fraction => !fraction.isEmpty && fraction.all isDecimal
    | _ => false
  | _ => false

/-- A text and what is given behind its first `=`. -/
def cutGiven (cs : List Char) : List Char × Option String :=
  match cs.dropWhile (· != '=') with
  | [] => (cs, none)
  | _ :: given => (cs.takeWhile (· != '='), some (String.ofList given))

/-- The option with exactly this name. -/
def named? (u : Usage) (name : List Char) : Option Flag :=
  u.allFlags.find? fun f =>
    f.name.toList == name || (f.form == .help && Flag.shortHelp.toList == name)

/-- What the short name of help stands for with `tail` behind it. Its letter may be said more than
once, also behind an equals sign, but nothing else may follow it. -/
def shortened (tail : List Char) : Argument :=
  let letters := match tail with
    | '=' :: rest => rest
    | cs => cs
  if !letters.isEmpty && letters.all (· == 'h') then .option .help none else .faulty

/-- A text that names no option: a word if it is a number or has spaces. -/
def unnamed (text : String) : Argument :=
  if isNegative text.toList || text.toList.contains ' ' then .word text else .unknown text

/-- Sorts one argument. The name of an option may be cut short as long as it is the only one that
begins so. -/
def ofText (u : Usage) (text : String) : Except Stop Argument :=
  let (name, given) := cutGiven text.toList
  match text.toList with
  | '-' :: second :: tail =>
    match named? u text.toList, named? u name with
    | some flag, _ => .ok (.option flag none)
    | none, some flag =>
      .ok (if flag.form == .help && second != '-' then shortened tail else .option flag given)
    | none, none =>
      if second == '-' then
        match u.allFlags.filter fun f => name.isPrefixOf f.name.toList with
        | [] => .ok (unnamed text)
        | [flag] => .ok (.option flag given)
        | _ => .error .misuse
      else if second == 'h' then .ok (shortened tail)
      else .ok (unnamed text)
  | _ => .ok (.word text)

/-- Sorts all arguments into words, options and the divider `--`, behind which there are words only.
They take effect later, from left to right. -/
def ofTexts (u : Usage) : List String → Except Stop (List Argument)
  | [] => .ok []
  | text :: rest =>
    if text == "--" then .ok (.divider :: rest.map .word)
    else do
      let first ← ofText u text
      let others ← ofTexts u rest
      .ok (first :: others)

end Argument

/-- What an option was set to. The divider behind an equals sign sets it to nothing at all. -/
inductive Setting where
  | on
  | nothing
  | text (value : String)
  | number (value : Int)
deriving DecidableEq, Repr

/-- The arguments of a command: its words, the settings of options in order, and whether there was
anything that it has no use for. -/
structure Arguments where
  words : List String := []
  settings : List (String × Setting) := []
  strange : Bool := false
deriving DecidableEq, Repr

namespace Arguments

/-- The last setting of an option. -/
def setting? (a : Arguments) (name : String) : Option Setting :=
  (a.settings.reverse.find? (·.1 == name)).map Prod.snd

/-- The text that an option was set to. -/
def text? (a : Arguments) (name : String) : Option String :=
  match a.setting? name with
  | some (.text value) => some value
  | _ => none

/-- The text that an option was set to, if it was not set to nothing; the default if it was left
out. -/
def textOr (a : Arguments) (name default : String) : Option String :=
  if (a.setting? name).isSome then a.text? name else some default

/-- The number that an option was set to, if it was not set to nothing; the default if it was left
out. -/
def numberOr (a : Arguments) (name : String) (default : Int) : Option Int :=
  match a.setting? name with
  | none => some default
  | some (.number value) => some value
  | some _ => none

def isOn (a : Arguments) (name : String) : Bool :=
  (a.setting? name).isSome

def addWord (a : Arguments) (word : String) : Arguments :=
  { a with words := a.words ++ [word] }

def addStrange (a : Arguments) : Arguments := { a with strange := true }

/-- Sets an option. Help ends the reading; a number must be one. -/
def set (u : Usage) (a : Arguments) (flag : Flag) (value : String) : Except Stop Arguments :=
  let put := fun s => { a with settings := a.settings ++ [(flag.name, s)] }
  match flag.form with
  | .help => .error (.help u)
  | .switch => .ok (put .on)
  | .text => .ok (put (if value == "--" then .nothing else .text value))
  | .number =>
    if value == "--" then .ok (put .nothing)
    else match Decimal.readInt value with
      | .ok n => .ok (put (.number n))
      | .error _ => .error .misuse

/-- How far the words of a command have come. Words come in one row: after an option there are no
more of them. -/
inductive Stage where
  | before
  | within
  | after
deriving DecidableEq, Repr

/-- The stage after a word. -/
def addOperand (u : Usage) (a : Arguments) (stage : Stage) (word : String) : Arguments × Stage :=
  match u.operand, stage with
  | some _, .before => (a.addWord word, .within)
  | some (.many ..), .within => (a.addWord word, .within)
  | _, _ => (a.addStrange, .after)

/-- The stage after an option. -/
def Stage.afterOption : Stage → Stage
  | .before => .before
  | _ => .after

/-- Reads sorted arguments from left to right; `texts` are the same arguments as they were given.
The name of another command takes all that follows with it. -/
def read (u : Usage) (a : Arguments) (stage : Stage) :
    List Argument → List String → Except Stop Arguments
  | [], _ => .ok a
  | .divider :: rest, texts =>
    match u.operand, stage with
    | some (.command _), .before => if rest.isEmpty then .ok a.addStrange else .error .misuse
    | some _, .before => if rest.isEmpty then .ok a.addStrange else read u a .before rest texts.tail
    | some (.many ..), .within => read u a .within rest texts.tail
    | some _, .within => read u a .after rest texts.tail
    | _, _ => read u a.addStrange .after rest texts.tail
  | .word word :: rest, texts =>
    match u.operand, stage with
    | some (.command _), .before => .ok { a with words := texts }
    | _, _ =>
      let (a, stage) := a.addOperand u stage word
      read u a stage rest texts.tail
  | .option flag none :: .word value :: rest, texts =>
    if flag.form.takesValue then do
      let a ← a.set u flag value
      read u a stage.afterOption rest texts.tail.tail
    else do
      let a ← a.set u flag ""
      read u a stage.afterOption (.word value :: rest) texts.tail
  | .option flag none :: rest, texts =>
    if flag.form.takesValue then .error .misuse
    else do
      let a ← a.set u flag ""
      read u a stage.afterOption rest texts.tail
  | .option flag (some value) :: rest, texts =>
    if flag.form.takesValue then do
      let a ← a.set u flag value
      read u a stage.afterOption rest texts.tail
    else .error .misuse
  | .faulty :: _, _ => .error .misuse
  | .unknown _ :: rest, texts => read u a.addStrange stage.afterOption rest texts.tail

/-- The arguments in texts. -/
def ofTexts (u : Usage) (texts : List String) : Except Stop Arguments := do
  let sorted ← Argument.ofTexts u texts
  read u {} .before sorted texts

/-- Whether a command can run with the arguments: nothing is strange, and an operand is there. -/
def isComplete (u : Usage) (a : Arguments) : Bool :=
  !a.strange && (u.operand.isNone || !a.words.isEmpty)

end Arguments

end Earley.Command
