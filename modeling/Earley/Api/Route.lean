import Earley.Api.Message
import Earley.Store
import Earley.Text.Column

namespace Earley.Api

open Earley.Text

/-- What the service keeps for its clients. -/
inductive Collection where
  | grammars
  | lexicons
deriving DecidableEq, Repr

namespace Collection

/-- The store of a collection. -/
def store : Collection → Store
  | .grammars => { kind := .grammar }
  | .lexicons => { kind := .lexicon }

/-- The part of a path that names the collection. -/
def segment : Collection → String
  | .grammars => "grammars"
  | .lexicons => "lexicons"

/-- One member of the collection. -/
def singular : Collection → String
  | .grammars => "grammar"
  | .lexicons => "lexicon"

end Collection

/-- What a route does. -/
inductive Endpoint where
  | page
  | description
  | root
  | parse
  | builtins
  | list (of : Collection)
  | create (of : Collection)
  | get (of : Collection)
  | text (of : Collection)
  | delete (of : Collection)
deriving DecidableEq, Repr

/-- A part of a route's path: a fixed word, or any word under a name. -/
inductive Segment where
  | fixed (word : String)
  | any (name : String)
deriving DecidableEq, Repr

/-- A route of the service: the method and the path that it answers, and what it is called. -/
structure Route where
  method : String
  path : List Segment
  endpoint : Endpoint
  name : String
deriving DecidableEq, Repr

namespace Route

/-- The routes of a collection. -/
def ofCollection (c : Collection) : List Route :=
  let all : List Segment := [.fixed "api", .fixed c.segment]
  let one := all ++ [.any (c.singular ++ "_id")]
  [⟨"GET", all, .list c, "list_" ++ c.segment⟩,
   ⟨"POST", all, .create c, "create_" ++ c.singular⟩,
   ⟨"GET", one, .get c, "get_" ++ c.singular⟩,
   ⟨"GET", one ++ [.fixed "dsl"], .text c, "get_" ++ c.singular ++ "_dsl"⟩,
   ⟨"DELETE", one, .delete c, "delete_" ++ c.singular⟩]

/-- All routes of the service's own. -/
def all : List Route :=
  [⟨"POST", [.fixed "api", .fixed "parse"], .parse, "parse"⟩,
   ⟨"GET", [.fixed "api", .fixed "builtins"], .builtins, "list_builtins"⟩] ++
  ofCollection .grammars ++ ofCollection .lexicons ++ [⟨"GET", [], .root, "root"⟩]

/-- The routes that tell about the service: a description for programs, and pages for people. -/
def about : List Route :=
  ["GET", "HEAD"].flatMap fun method =>
    [⟨method, [.fixed "openapi.json"], .description, "openapi"⟩,
     ⟨method, [.fixed "docs"], .page, "docs"⟩,
     ⟨method, [.fixed "docs", .fixed "oauth2-redirect"], .page, "docs_redirect"⟩,
     ⟨method, [.fixed "redoc"], .page, "redoc"⟩]

/-- Whether words follow a path; the second value is the word that any word could stand for. -/
def matchWords : List Segment → List (List Char) → Option (Option String)
  | [], [] => some none
  | .fixed word :: path, given :: rest =>
    if word.toList == given then matchWords path rest else none
  | .any _ :: path, given :: rest =>
    if given.isEmpty then none
    else (matchWords path rest).map fun more => more.orElse fun _ => some (String.ofList given)
  | _, _ => none

/-- The words between the slashes of a path; the path of the root has none. -/
def wordsOf? : List Char → Option (List (List Char))
  | ['/'] => some []
  | '/' :: rest => some (pieces (· == '/') rest)
  | _ => none

/-- How a route takes a path as it stands. -/
def takesWhole? (r : Route) (path : List Char) : Option (Option String) :=
  (wordsOf? path).bind (matchWords r.path)

/-- How a route takes a path. One line feed may stand behind it; it counts only as part of a word
that may be any. -/
def takes? (r : Route) (path : List Char) : Option (Option String) :=
  (r.takesWhole? path).orElse fun _ =>
    if path.getLast? == some '\n' then r.takesWhole? path.dropLast else none

/-- The path of a route, with the names of the words in braces. -/
def pathText (r : Route) : String :=
  "/" ++ "/".intercalate (r.path.map fun
    | .fixed word => word
    | .any name => "\x7b" ++ name ++ "\x7d")

/-- The line of a route in the table of routes. -/
def line (r : Route) : String :=
  "  " ++ padRight 8 r.method ++ " " ++ padRight 40 r.pathText ++ " → " ++ r.name

/-- The order of the table: by path, then by method. -/
def precedes (r q : Route) : Bool :=
  r.pathText < q.pathText || (r.pathText == q.pathText && r.method ≤ q.method)

/-- The table of routes, one line each. -/
def table : List String :=
  (all.mergeSort precedes).map line

end Route

/-- Where a request leads. -/
inductive Destination where
  | endpoint (what : Endpoint) (parameter : String)
  | wrongMethod
  | moved
  | nowhere
deriving DecidableEq, Repr

/-- The path with a slash at its end taken away or added. -/
def toggleSlash (path : List Char) : List Char :=
  if path.getLast? == some '/' then (path.reverse.dropWhile (· == '/')).reverse else path ++ ['/']

/-- The routes that take a path, with the word that stands for any. -/
def routesFor (path : List Char) : List (Route × Option String) :=
  (Route.about ++ Route.all).filterMap fun r => (r.takes? path).map fun parameter => (r, parameter)

/-- The first route that takes the path and has the method. A path that is known but for a slash at
its end has moved. -/
def destination (method : String) (path : List Char) : Destination :=
  let routes := routesFor path
  match routes.find? (·.1.method == method) with
  | some (r, parameter) => .endpoint r.endpoint (parameter.getD "")
  | none =>
    if !routes.isEmpty then .wrongMethod
    else if path != ['/'] && !(routesFor (toggleSlash path)).isEmpty then .moved
    else .nowhere

/-- The service's name. -/
def title : String := "Buffalo API"

/-- The service's version. -/
def version : String := "0.1.0"

/-- What the service says when it starts. -/
def greeting : String :=
  "\n" ++ title ++ " " ++ version ++ "\n" ++ "\n".intercalate Route.table ++ "\n\n"

end Earley.Api
