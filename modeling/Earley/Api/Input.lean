import Earley.Api.Message
import Earley.Decimal.Reading
import Earley.Forest
import Earley.Token

namespace Earley.Api

open Earley.Text

/-- A value, or the issues that stand in its way. All issues of a request are found, in the order of
the fields. -/
abbrev Checked (α : Type) := Except (List Located) α

/-- The issues of a check. -/
def issuesOf {α : Type} : Checked α → List Located
  | .ok _ => []
  | .error found => found

/-- One issue with a value at a place. -/
def issueAt {α : Type} (place : List Step) (issue : Issue) (input : Json) : Checked α :=
  .error [⟨place, issue, some input⟩]

/-- A text without the low lines between its characters; none if one stands at an end or beside
another. -/
def joinLowLines? : List Char → Option (List Char)
  | [] => some []
  | ['_'] => none
  | '_' :: _ => none
  | [c] => some [c]
  | c :: '_' :: d :: rest => if d == '_' then none else (joinLowLines? (d :: rest)).map (c :: ·)
  | [_, '_'] => none
  | c :: rest => (joinLowLines? rest).map (c :: ·)

/-- The most digits that are read as an integer. -/
def maxNumeral : Nat := 4300

/-- The text behind needless zeros at its front, which may have low lines among them. A zero stays
if no digit follows; behind zeros, also a minus sign may begin. -/
def skipZeros? : List Char → Option (List Char)
  | '0' :: rest =>
    match rest.dropWhile fun c => c == '0' || c == '_' with
    | [] => some (rest.getLast?.getD '0' :: [])
    | '.' :: fraction =>
      some ((rest.takeWhile fun c => c == '0' || c == '_').getLast?.getD '0' :: '.' :: fraction)
    | c :: more => if c.isDigit || c == '-' then some (c :: more) else none
  | c :: rest => if c.isDigit then some (c :: rest) else none
  | [] => none

/-- The text before a fraction that is all zeros. -/
def dropZeroFraction (cs : List Char) : List Char :=
  match cs.dropWhile (· != '.') with
  | _ :: fraction =>
    if !fraction.isEmpty && fraction.all (· == '0') then cs.takeWhile (· != '.') else cs
  | [] => cs

/-- The text of an integer without what it does not need: blanks around it, a plus sign, zeros in
front, a fraction of zeros, and single low lines between digits. -/
def cleanNumeral? (cs : List Char) : Option (List Char) :=
  match Decimal.trimNumber cs with
  | '-' :: body => (skipZeros? body).bind fun rest => joinLowLines? (dropZeroFraction ('-' :: rest))
  | '+' :: body | body => (skipZeros? body).bind fun rest => joinLowLines? (dropZeroFraction rest)

/-- A text without a minus sign at its front, and whether there was one. -/
def takeMinus : List Char → Bool × List Char
  | '-' :: rest => (true, rest)
  | cs => (false, cs)

/-- The integer that digits stand for, with a minus sign or without, if there are not too many of
them and no needless zeros. -/
def plainInteger? (cs : List Char) : Option Int :=
  let (negative, digits) := takeMinus cs
  if digits.isEmpty || !digits.all Char.isDigit || maxNumeral < digits.length ||
      (1 < digits.length && digits.head? == some '0') then none
  else
    let size : Int := Decimal.ofDigits digits
    some (if negative then -size else size)

/-- Whether a text begins with too many digits of one number. -/
def beginsTooLong (cs : List Char) : Bool :=
  let digits := (takeMinus cs).2.takeWhile Char.isDigit
  maxNumeral < digits.length && digits.head? != some '0'

/-- The integer of a text, as it stands or else without what it does not need. Of what stands there
at first it is told if it is too long. -/
def readNumeral (text : String) : Except Issue Int :=
  match plainInteger? text.toList with
  | some n => .ok n
  | none =>
    if beginsTooLong text.toList then .error .tooManyDigits
    else match (cleanNumeral? text.toList).bind plainInteger? with
      | some n => .ok n
      | none => .error .notNumeral

/-- The integer that a float is, if it is one that 64 bits hold. -/
def wholeFloat (x : Binary64) : Except Issue Int :=
  match x with
  | .finite negative rank =>
    let units := Binary64.units rank
    if units % Binary64.unitsPerOne ≠ 0 then .error .fraction
    else
      let size := units / Binary64.unitsPerOne
      if Nat.pow 2 63 ≤ size then .error .tooManyDigits
      else .ok (if negative then -(size : Int) else size)
  | _ => .error .notFinite

/-- The integer of a value: a number without a fraction, a text of one, or a truth value. -/
def readInteger : Json → Except Issue Int
  | .int n => .ok n
  | .float x => wholeFloat x
  | .string s => readNumeral s
  | .bool b => .ok (if b then 1 else 0)
  | _ => .error .notInt

/-- The number of the database that a query names. -/
def databaseNumber (r : Request) : Checked Int :=
  match r.query? "db" with
  | none => .ok 0
  | some text => (readNumeral text).mapError fun issue =>
    [⟨[.name "query", .name "db"], issue, some (.string text)⟩]

/-- The place of a field of the body. -/
def fieldPlace (name : String) : List Step := [.name "body", .name name]

/-- The text of a field's value. -/
def readText (name : String) (j : Json) : Checked AnyText :=
  match j.text? with
  | some t => .ok t
  | none => issueAt (fieldPlace name) .notString j

/-- A text that may be left out. -/
def optionalText (body : Json) (name : String) : Checked (Option AnyText) :=
  match body.get? name with
  | none | some .null => .ok none
  | some j => (readText name j).map some

/-- A text with a default. -/
def textOr (body : Json) (name default : String) : Checked AnyText :=
  match body.get? name with
  | none => .ok default
  | some j => readText name j

/-- A text that must be there. -/
def requiredText (body : Json) (name : String) : Checked AnyText :=
  match body.get? name with
  | none => issueAt (fieldPlace name) .missing body
  | some j => readText name j

/-- The texts of a list whose first element has the given index. -/
def readTexts (name : String) (index : Nat) : List Json → List Located × List AnyText
  | [] => ([], [])
  | j :: rest =>
    let (found, texts) := readTexts name (index + 1) rest
    match j.text? with
    | some t => (found, t :: texts)
    | none => (⟨fieldPlace name ++ [.index index], .notString, some j⟩ :: found, texts)

/-- A list of texts that may be left out. -/
def optionalTexts (body : Json) (name : String) : Checked (Option (List AnyText)) :=
  match body.get? name with
  | none | some .null => .ok none
  | some (.array xs) => match readTexts name 0 xs with
    | ([], texts) => .ok (some texts)
    | (found, _) => .error found
  | some j => issueAt (fieldPlace name) .notList j

/-- A bound on trees; it has a greatest value, which is also its default. -/
def treeLimit (body : Json) (name : String) : Checked Nat :=
  match body.get? name with
  | none => .ok Forest.defaultLimit
  | some j => match readInteger j with
    | .error issue => issueAt (fieldPlace name) issue j
    | .ok n =>
      if n < 1 then issueAt (fieldPlace name) .tooSmall j
      else if Forest.defaultLimit < n then issueAt (fieldPlace name) .tooLarge j
      else .ok n.toNat

/-- Why the fields of a request cannot be read: its body is not readable at all, or there are issues
with it or with the query. -/
inductive Obstacle where
  | unreadable
  | issues (found : List Located)

/-- The answer where an obstacle was found. -/
def Obstacle.response : Obstacle → Response
  | .unreadable => .refuse 400 "There was an error parsing the body"
  | .issues found => .invalid found

/-- What is to be taken apart into fields: the value of a body, or its bytes, as a text if they are
one, where the request says that they are not JSON. -/
inductive Given where
  | value (j : Json)
  | bytes (text? : Option String)

/-- What a request gives. A request without a body gives null. -/
def Request.given (r : Request) : Except Obstacle Given :=
  match r.body with
  | none => .ok (.value .null)
  | some content =>
    if r.saysJson then match content.value with
      | .ok j => .ok (.value j)
      | .error (.notJson position) =>
        .error (.issues [⟨[.name "body", .index position], .notJson, some (.object [])⟩])
      | .error .unreadable => .error .unreadable
    else .ok (.bytes content.text?)

/-- The object that a request gives. -/
def Given.object : Given → Checked Json
  | .value .null => issueAt [.name "body"] .missing .null
  | .value j => if j.members?.isSome then .ok j else issueAt [.name "body"] .notObject j
  | .bytes text? => .error [⟨[.name "body"], .notObject, text?.map .string⟩]

/-- A request to parse a sentence. -/
structure ParseRequest where
  tokens : Option (List AnyText)
  text : Option AnyText
  grammar : AnyText
  lexicon : AnyText
  limit : Nat
deriving DecidableEq, Repr

/-- The name of the grammar and of the lexicon where none is given. -/
def defaultName : String := "english"

def ParseRequest.ofJson (body : Json) : Checked ParseRequest :=
  let tokens := optionalTexts body "tokens"
  let text := optionalText body "text"
  let grammar := textOr body "grammar" defaultName
  let lexicon := textOr body "lexicon" defaultName
  let limit := treeLimit body "max_trees"
  match tokens, text, grammar, lexicon, limit with
  | .ok tokens, .ok text, .ok grammar, .ok lexicon, .ok limit =>
    .ok ⟨tokens, text, grammar, lexicon, limit⟩
  | _, _, _, _, _ =>
    .error (issuesOf tokens ++ issuesOf text ++ issuesOf grammar ++ issuesOf lexicon ++
      issuesOf limit)

/-- The tokens of the sentence, or else the words of the text. No word has a half of a pair in it. -/
def ParseRequest.sentence? (r : ParseRequest) : Option (List AnyText) :=
  r.tokens.orElse fun _ => r.text.map fun text => (words text.shown).map .whole

/-- A request to keep a named text. -/
structure CreateRequest where
  name : AnyText
  dsl : AnyText
deriving DecidableEq, Repr

def CreateRequest.ofJson (body : Json) : Checked CreateRequest :=
  let name := requiredText body "name"
  let dsl := requiredText body "dsl"
  match name, dsl with
  | .ok name, .ok dsl => .ok ⟨name, dsl⟩
  | _, _ => .error (issuesOf name ++ issuesOf dsl)

/-- The number of the database and the body of a request. -/
def withBody {α : Type} (r : Request) (read : Json → Checked α) : Except Obstacle (Int × α) :=
  match r.given with
  | .error obstacle => .error obstacle
  | .ok given =>
    let number := databaseNumber r
    let body := given.object.bind read
    match number, body with
    | .ok n, .ok b => .ok (n, b)
    | _, _ => .error (.issues (issuesOf number ++ issuesOf body))

end Earley.Api
