import Earley.Api.Service
import Earley.Decimal.Numeral
import Earley.Text.Quoted

namespace Earley.Client

open Earley.Api (Address Collection Request Response Service)

/-- The host of the service. -/
def host : String := "http://localhost:8000"

/-- What a client asks for. -/
inductive Call where
  | parse (body : Json)
  | builtins
  | create (of : Collection) (body : Json)
  | list (of : Collection)
  | get (of : Collection) (id : String)
  | text (of : Collection) (id : String)
  | delete (of : Collection) (id : String)

namespace Call

/-- A call to parse a sentence. What was set to nothing goes as an empty list, for the service to
refuse. -/
def sentence (tokens : List String) (grammar lexicon : Option String) (limit : Option Int) : Call :=
  let given := fun {α : Type} (toJson : α → Json) (value : Option α) =>
    (value.map toJson).getD (.array [])
  .parse (.object [("tokens", .strings tokens), ("grammar", given .string grammar),
    ("lexicon", given .string lexicon), ("max_trees", given .int limit)])

/-- A call to keep a text. -/
def source (c : Collection) (name dsl : String) : Call :=
  .create c (.object [("name", .string name), ("dsl", .string dsl)])

def method : Call → String
  | .parse _ | .create .. => "POST"
  | .delete .. => "DELETE"
  | _ => "GET"

/-- The address behind the host. Identifiers are put into it as they are. -/
def target : Call → String
  | .parse _ => "/api/parse"
  | .builtins => "/api/builtins"
  | .create c _ | .list c => "/api/" ++ c.segment
  | .get c id | .delete c id => "/api/" ++ c.segment ++ "/" ++ id
  | .text c id => "/api/" ++ c.segment ++ "/" ++ id ++ "/dsl"

def body : Call → Option Json
  | .parse body | .create _ body => some body
  | _ => none

/-- The request of a call. -/
def request? (call : Call) : Except Request.Fault Request :=
  Request.ofParts? call.method (host ++ call.target) call.body

/-- The value of a call in what the service tells: lists come with a name around them. -/
def value (call : Call) (told : Json) : Json :=
  match call with
  | .list c => (told.get? c.segment).getD .null
  | _ => told

end Call

/-- What can come instead of a value: no request at all, an answer that is no success, or one that
is no JSON. -/
inductive Fault where
  | request (fault : Request.Fault)
  | refused (status : Nat) (address : String) (location : Option String)
  | notJson (text : String) (fault : Json.Fault)

/-- The class of a status that is no success. -/
def className (status : Nat) : String :=
  match status / 100 with
  | 1 => "Informational response"
  | 3 => "Redirect response"
  | 4 => "Client error"
  | 5 => "Server error"
  | _ => "Invalid status code"

/-- The words that go with a status. -/
def statusName : Nat → String
  | 307 => "Temporary Redirect"
  | 400 => "Bad Request"
  | 404 => "Not Found"
  | 405 => "Method Not Allowed"
  | 422 => "Unprocessable Entity"
  | 500 => "Internal Server Error"
  | _ => ""

def Fault.message : Fault → String
  | .request fault => fault.message
  | .notJson text fault => fault.describe text.toList
  | .refused status address location =>
    className status ++ " '" ++ Decimal.integerText status ++ " " ++ statusName status ++
      "' for url '" ++ address ++ "'\n" ++
      (match location with
        | some place => "Redirect location: '" ++ place ++ "'\n"
        | none => "") ++
      "For more information check: https://developer.mozilla.org/en-US/docs/Web/HTTP/Status/" ++
      Decimal.integerText status

/-- The value in an answer to a call, if the answer is a success. -/
def ofResponse (call : Call) (address : Address) (response : Response) : Except Fault Json :=
  match response.status / 100, response.body with
  | 2, .json told => .ok (call.value told)
  | 2, .text text => match Json.read text.toList with
    | .ok told => .ok (call.value told)
    | .error fault => .error (.notJson text fault)
  | _, _ =>
    .error (.refused response.status (host ++ address.text) (response.location.map (host ++ ·)))

/-- Makes a call; the second value is the service after it. -/
def send (call : Call) (s : Service) : Except Fault Json × Service :=
  match call.request? with
  | .error fault => (.error (.request fault), s)
  | .ok request =>
    let (response, s) := Api.serve request s
    (ofResponse call request.address response, s)

end Earley.Client
