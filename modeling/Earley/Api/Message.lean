import Earley.Api.Address
import Earley.Json.Printer

namespace Earley.Api

open Earley.Text

/-- Why the bytes of a body are not read as JSON. -/
inductive Unread where
  /-- They are no JSON, as is seen at a character. -/
  | notJson (position : Nat)
  /-- They are no text at all, are nested too deeply, or have a number with too many digits. -/
  | unreadable
deriving DecidableEq, Repr

/-- What the bytes of a body come to: the value that they are read as, and the text that they are in
UTF-8, if they are one. -/
structure Content where
  value : Except Unread Json
  text? : Option String

/-- The content of a client that sends a value with all characters as they are. -/
def Content.ofJson (j : Json) : Content where
  value := .ok j
  text? := (AnyText.ofCodes j.sent).whole?

/-- A request, with or without a body. -/
structure Request where
  method : String
  address : Address
  body : Option Content := none
  headers : List (String × String) := []

namespace Request

/-- Why there can be no request with given parts. -/
inductive Fault where
  | address (fault : Address.Fault)
  | header (text : List Char)
  | body
  | bodyText (codes : List Nat)
  | host (fault : Host.LabelFault)

/-- Where a text has characters of a kind: the first of them and what follows it without a gap. -/
def partOf {α : Type} (isFound : α → Bool) (text : List α) : Nat × List α :=
  ((text.takeWhile (!isFound ·)).length, (text.dropWhile (!isFound ·)).takeWhile isFound)

/-- The message for a part of a text that an encoding does not have. -/
def encodingMessage {α : Type} (encoding reason : String) (escape : α → List Char) (part : Nat × List α) :
    String :=
  let (start, found) := part
  let place := match found with
    | [c] => "character '" ++ String.ofList (escape c) ++ "' in position " ++ Decimal.integerText start
    | _ => "characters in position " ++ Decimal.integerText start ++ "-" ++
      Decimal.integerText (start + found.length - 1)
  "'" ++ encoding ++ "' codec can't encode " ++ place ++ ": " ++ reason

def Fault.message : Fault → String
  | .address fault => fault.message
  | .header text => encodingMessage "ascii" "ordinal not in range(128)" quoteEscape
    (partOf (0x80 ≤ ·.toNat) text)
  | .body => "Out of range float values are not JSON compliant"
  | .bodyText codes => encodingMessage "utf-8" "surrogates not allowed" Json.unitEscape
    (partOf isHalf codes)
  | .host fault => fault.message

/-- The first text among names and values of headers that is not ASCII. -/
def foreignHeader? (headers : List (String × String)) : Option String :=
  (headers.flatMap fun (name, value) => [name, value]).find? fun text =>
    !text.toList.all (·.toNat < 0x80)

/-- The request with given parts: an address that can be read, headers in ASCII, a body that strict
JSON can carry, and a host that stands for a name. -/
def ofParts? (method target : String) (body : Option Json := none)
    (headers : List (String × String) := []) : Except Fault Request := do
  let address ← (Address.ofText? target).mapError .address
  let fault? := match foreignHeader? headers, body with
    | some text, _ => some (Fault.header text.toList)
    | none, some j =>
      if j.isStrict then none
      else if (Content.ofJson j).text?.isSome then some .body
      else some (.bodyText j.sent)
    | none, none => none
  match fault? with
  | some fault => .error fault
  | none => do
    (Host.checkSigned ((address.place.map Authority.host).getD [])).mapError .host
    .ok { method, address, body := body.map .ofJson, headers }

/-- The text with ASCII capitals made small. -/
def foldCase (s : String) : String :=
  String.ofList (s.toList.map Char.toLower)

/-- A header's value. Names of headers have no case. -/
def header? (r : Request) (name : String) : Option String :=
  (r.headers.find? fun (n, _) => foldCase n == name).map Prod.snd

/-- The capitals of a letter, if they are in ASCII: also those of the dotless i, of the long and the
sharp s, and of letters that are joined. -/
def capitals : Char → List Char
  | 'ı' => ['I']
  | 'ſ' => ['S']
  | 'ß' => ['S', 'S']
  | 'ﬀ' => ['F', 'F']
  | 'ﬁ' => ['F', 'I']
  | 'ﬂ' => ['F', 'L']
  | 'ﬃ' => ['F', 'F', 'I']
  | 'ﬄ' => ['F', 'F', 'L']
  | 'ﬅ' | 'ﬆ' => ['S', 'T']
  | c => [c.toUpper]

/-- The method in capitals. -/
def verb (r : Request) : String :=
  String.ofList (r.method.toList.flatMap capitals)

/-- The path, with percent notation undone. -/
def path (r : Request) : List Char := r.address.hostPath

/-- The text of a part of a query; a plus sign stands for a space. -/
def queryText (cs : List Char) : String :=
  String.ofList (Percent.decode (cs.map fun c => if c == '+' then ' ' else c))

/-- A name and a value of a query. -/
def queryItem (piece : List Char) : String × String :=
  let (name, value) := Address.cutAt '=' piece
  (queryText name, queryText (value.getD []))

/-- The names and values of the query. -/
def query (r : Request) : List (String × String) :=
  ((pieces (· == '&') (r.address.query.getD [])).filter (!·.isEmpty)).map queryItem

/-- The value of a query's name; of several the last counts. -/
def query? (r : Request) (name : String) : Option String :=
  (r.query.reverse.find? (·.1 == name)).map Prod.snd

/-- Whether a type of content is JSON: a form of application whose name is or ends so. -/
def isJsonType (form : List Char) : Bool :=
  match pieces (· == '/') form with
  | [family, name] =>
    family == "application".toList && (name == "json".toList || "+json".toList.isSuffixOf name)
  | _ => false

/-- Whether the request does not say that its body is something else than JSON. -/
def saysJson (r : Request) : Bool :=
  match r.header? "content-type" with
  | some form => isJsonType ((trim (form.toList.takeWhile (· != ';'))).map Char.toLower)
  | none => true

/-- The origin and the method of a question in advance. -/
def preflight? (r : Request) : Option (String × String) :=
  match r.verb, r.header? "origin", r.header? "access-control-request-method" with
  | "OPTIONS", some origin, some method => some (origin, method)
  | _, _, _ => none

end Request

/-- What is wrong with a value of a request. -/
inductive Issue where
  | notJson
  | missing
  | notString
  | notList
  | notInt
  | notNumeral
  | tooManyDigits
  | notFinite
  | fraction
  | tooSmall
  | tooLarge
  | notObject
deriving DecidableEq, Repr

def Issue.name : Issue → String
  | .notJson => "json_invalid"
  | .missing => "missing"
  | .notString => "string_type"
  | .notList => "list_type"
  | .notInt => "int_type"
  | .notNumeral => "int_parsing"
  | .tooManyDigits => "int_parsing_size"
  | .notFinite => "finite_number"
  | .fraction => "int_from_float"
  | .tooSmall => "greater_than_equal"
  | .tooLarge => "less_than_equal"
  | .notObject => "model_attributes_type"

/-- A part of a place in a request. -/
inductive Step where
  | name (text : String)
  | index (n : Nat)
deriving DecidableEq, Repr

/-- An issue and its place, with the value that it is about. Bytes that are no text have none. -/
structure Located where
  place : List Step
  issue : Issue
  input : Option Json

/-- What an answer carries. A value may have been left out, though the answer still says that it is
JSON. -/
inductive Body where
  | json (value : Json)
  | text (value : String)
  | issues (found : List Located)
  | leftOut

/-- An answer, with the origin that may read it and the address to ask instead. -/
structure Response where
  status : Nat
  body : Body
  allowOrigin : Option String := none
  location : Option String := none

namespace Response

/-- The answer to a request that failed without a reason to tell. -/
def crash : Response := { status := 500, body := .text "Internal Server Error" }

/-- Whether answers tell of members with a name. Names that begin with `_sa` are for inner use. -/
def isTold (name : String) : Bool :=
  !"_sa".toList.isPrefixOf name.toList

/-- A value as far as it is told. -/
def ok (value : Json) : Response := { status := 200, body := .json (value.keepMembers isTold) }

/-- A refusal with its reason. -/
def refuse (status : Nat) (reason : AnyText) : Response :=
  { status, body := .json (.object [("detail", .ofText reason)]) }

/-- A refusal of the values of a request. -/
def invalid (found : List Located) : Response := { status := 422, body := .issues found }

/-- Whether what an answer tells can be sent: JSON must be strict, and issues come with the values
that they are about, as far as these are told. -/
def isSendable (response : Response) : Bool :=
  match response.body with
  | .json value => value.isStrict
  | .issues found => found.all fun i => i.input.any fun j => (j.keepMembers isTold).isStrict
  | .text _ | .leftOut => true

/-- The answer as it is sent. One that cannot be sent is a failure. -/
def sent (response : Response) : Response :=
  if response.isSendable then response else crash

/-- The answer without what it carries. -/
def bare (response : Response) : Response :=
  match response.body with
  | .text _ => { response with body := .text "" }
  | _ => { response with body := .leftOut }

/-- Bytes that stand for themselves in the place of an answer to ask instead. -/
def isLocationByte (b : Nat) : Bool :=
  (Char.ofNat b).isAlphanum || "_.-~:/%#?=@[]!$&'()*+,;".toList.any (·.toNat == b)

/-- A character of a path where a query or a fragment could begin behind it. -/
def maskMark : Char → List Char
  | '?' => "%3F".toList
  | '#' => "%23".toList
  | c => [c]

/-- The answer that another path has what was asked for. The query stays the same. -/
def moved (path : List Char) (query : Option (List Char)) : Response :=
  let behind := match query with
    | none | some [] => []
    | some text => '?' :: Percent.encode Address.isQueryByte text
  { status := 307, body := .text "",
    location :=
      some (String.ofList (Percent.encode isLocationByte (path.flatMap maskMark ++ behind))) }

end Response

end Earley.Api
