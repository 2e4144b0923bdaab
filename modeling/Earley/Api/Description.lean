import Earley.Api.Input
import Earley.Api.Route

namespace Earley.Api

open Earley.Text

/-- A name of words with low lines between them, as a heading. -/
def heading (name : String) : String :=
  " ".intercalate ((pieces (· == '_') name.toList).map fun
    | c :: rest => String.ofList (c.toUpper :: rest)
    | [] => "")

namespace Form

/-- The form of values of one type. -/
def ofType (type : String) : List (String × Json) := [("type", .string type)]

/-- A form with a heading, which stands behind what is said of its values. -/
def titled (said : List (String × Json)) (title : String) (more : List (String × Json)) : Json :=
  .object (said ++ ("title", .string title) :: more)

/-- A text field. -/
def text (title : String) : Json := titled (ofType "string") title []

/-- A text field with a default. -/
def textOr (title default : String) : Json :=
  titled (ofType "string") title [("default", .string default)]

/-- What is said of values that have one of several forms. -/
def oneOf (forms : List Json) : List (String × Json) := [("anyOf", .array forms)]

/-- What is said of lists. -/
def listOf (element : Json) : List (String × Json) := ("items", element) :: ofType "array"

/-- A form that is described elsewhere under a name. -/
def named (name : String) : Json :=
  .object [("$ref", .string ("#/components/schemas/" ++ name))]

/-- The form of JSON content. -/
def content (form : Json) : Json :=
  .object [("application/json", .object [("schema", form)])]

/-- The form of objects with given members, some of which must be there. -/
def members (title : String) (fields : List (String × Json)) (required : List String) : Json :=
  titled (("properties", .object fields) :: ofType "object" ++
    if required.isEmpty then [] else [("required", .strings required)]) title []

/-- A bound on numbers, which is no integer itself. -/
def bound (n : Nat) : Json :=
  match Binary64.ofInt? n with
  | some x => .float x
  | none => .int n

/-- The form of a request to parse a sentence. -/
def parseRequest : Json :=
  let plain := fun type => Json.object (ofType type)
  let nothing := plain "null"
  let bounds := [("maximum", bound Forest.defaultLimit), ("minimum", bound 1)]
  members "ParseRequest"
    [("tokens", titled (oneOf [.object (listOf (plain "string")), nothing]) "Tokens" []),
     ("text", titled (oneOf [plain "string", nothing]) "Text" []),
     ("grammar", textOr "Grammar" defaultName),
     ("lexicon", textOr "Lexicon" defaultName),
     ("max_trees", titled (ofType "integer" ++ bounds) (heading "max_trees")
       [("default", .int Forest.defaultLimit)])] []

/-- The form of a request to keep a named text. -/
def createRequest (title : String) : Json :=
  members title [("name", text "Name"), ("dsl", text "Dsl")] ["name", "dsl"]

/-- The form of an issue and its place. -/
def issue : Json :=
  let step := Json.object (oneOf [.object (ofType "string"), .object (ofType "integer")])
  members "ValidationError"
    [("loc", titled (listOf step) "Location" []), ("msg", text "Message"),
     ("type", text "Error Type"), ("input", titled [] "Input" []),
     ("ctx", titled (ofType "object") "Context" [])] ["loc", "msg", "type"]

/-- The form of an answer that lists issues. -/
def issues : Json :=
  members "HTTPValidationError"
    [("detail", titled (listOf (named "ValidationError")) "Detail" [])] []

/-- All forms that have a name, in the order of their names. -/
def all : List (String × Json) :=
  [("CreateGrammarRequest", createRequest "CreateGrammarRequest"),
   ("CreateLexiconRequest", createRequest "CreateLexiconRequest"),
   ("HTTPValidationError", issues),
   ("ParseRequest", parseRequest),
   ("ValidationError", issue)]

end Form

namespace Endpoint

/-- The heading that an endpoint stands under. -/
def tag? : Endpoint → Option String
  | .parse | .builtins => some "parse"
  | .list c | .create c | .get c | .text c | .delete c => some c.segment
  | .page | .description | .root => none

/-- What an endpoint is for, where its name does not tell. -/
def purpose? : Endpoint → Option String
  | .parse => some "Parse tokens (or text, tokenized here) and return every distinct tree."
  | .builtins => some "Names of the built-in grammars and lexicons."
  | .list c => some ("List stored " ++ c.segment ++ ".")
  | .create c => some ("Store a " ++ c.singular ++ " from DSL text.")
  | _ => none

/-- The name of the form of the body that an endpoint takes. -/
def bodyForm? : Endpoint → Option String
  | .parse => some "ParseRequest"
  | .create c => some ("Create" ++ heading c.singular ++ "Request")
  | _ => none

/-- Whether an endpoint works on a database. -/
def usesDatabase : Endpoint → Bool
  | .page | .description | .root | .builtins => false
  | _ => true

end Endpoint

namespace Route

/-- The name that no other route has. -/
def identifier (r : Route) : String :=
  String.ofList ((r.name ++ r.pathText).toList.map fun c => if c.isAlphanum then c else '_') ++
    "_" ++ Request.foldCase r.method

/-- A word of the path that may be any. -/
def wordParameter? : Segment → Option Json
  | .fixed _ => none
  | .any name => some (.object
    [("name", .string name), ("in", .string "path"), ("required", .bool true),
     ("schema", Form.text (heading name))])

/-- The number of the database. -/
def databaseParameter : Json :=
  .object [("name", .string "db"), ("in", .string "query"), ("required", .bool false),
    ("schema", Form.titled (Form.ofType "integer" ++ [("default", .int 0)]) (heading "db") [])]

/-- What a route takes besides a body. -/
def parameters (r : Route) : List Json :=
  r.path.filterMap wordParameter? ++ if r.endpoint.usesDatabase then [databaseParameter] else []

/-- What a route answers. A route that takes nothing cannot be asked wrongly. -/
def answers (r : Route) : Json :=
  let answer (status meaning : String) (form : Json) : String × Json :=
    (status, .object [("description", .string meaning), ("content", Form.content form)])
  .object (answer "200" "Successful Response" (.object []) ::
    if r.parameters.isEmpty then []
    else [answer "422" "Validation Error" (Form.named "HTTPValidationError")])

/-- The description of a route. -/
def operation (r : Route) : Json :=
  let tags := r.endpoint.tag?.map fun tag => ("tags", Json.strings [tag])
  let purpose := r.endpoint.purpose?.map fun text => ("description", Json.string text)
  let parameters := if r.parameters.isEmpty then [] else [("parameters", Json.array r.parameters)]
  let body := r.endpoint.bodyForm?.map fun name =>
    ("requestBody", Json.object
      [("required", .bool true), ("content", Form.content (Form.named name))])
  .object (tags.toList ++ [("summary", .string (heading r.name))] ++ purpose.toList ++
    [("operationId", .string r.identifier)] ++ parameters ++ body.toList ++
    [("responses", r.answers)])

/-- The descriptions of the routes that share a path, by their methods. -/
def operationsUnder (path : String) : Json :=
  .object ((all.filter (·.pathText == path)).map fun r => (Request.foldCase r.method, r.operation))

end Route

/-- The description of the service for programs: its routes, what each of them takes and answers, and
the forms of what it takes. -/
def description : Json :=
  .object
    [("openapi", .string "3.1.0"),
     ("info", .object [("title", .string title), ("version", .string version)]),
     ("paths", .object ((Route.all.map Route.pathText).eraseDups.map fun path =>
       (path, Route.operationsUnder path))),
     ("components", .object [("schemas", .object Form.all)])]

end Earley.Api
