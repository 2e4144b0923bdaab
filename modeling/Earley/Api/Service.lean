import Earley.Api.Description
import Earley.English
import Earley.Token
import Earley.Tree.Json

namespace Earley.Api

open Earley.Text

/-- The databases of the service by number, and where new sources get their identifiers. -/
structure Service where
  databases : List (Int × Database) := []
  supply : Supply := {}
deriving DecidableEq, Repr

namespace Service

/-- A database; one that was never written to is empty. -/
def database (s : Service) (n : Int) : Database :=
  ((s.databases.find? (·.1 == n)).map Prod.snd).getD .empty

/-- Changes one database. -/
def setDatabase (s : Service) (n : Int) (db : Database) : Service :=
  if s.databases.any (·.1 == n) then
    { s with databases := s.databases.map fun entry => if entry.1 == n then (n, db) else entry }
  else { s with databases := s.databases ++ [(n, db)] }

end Service

/-- A built-in grammar by name, or else a kept one by identifier or name. -/
def resolveGrammar (name : String) (db : Database) : Except Store.LoadFault (Option Grammar) :=
  match English.grammar? name with
  | some g => .ok (some g)
  | none => Store.loadGrammar Collection.grammars.store.realm name db

/-- A lexicon for words without halves of surrogate pairs, and the characters that stand in for
halves in its readings. -/
structure MarkedLexicon where
  lexicon : Lexicon
  marks : List (Nat × Char) := []

namespace MarkedLexicon

/-- The lexicon of a text, without the words that have halves of pairs in them: no such word is looked
up. -/
def ofText (text : AnyText) : Except (LineFault Lexicon.LineError) MarkedLexicon :=
  let isMarked := fun (word : Headword) => text.marks.any fun (_, c) => word.key.toList.contains c
  (Lexicon.ofText text.shown).map fun lex =>
    ⟨⟨lex.headwords.filter (!isMarked ·)⟩, text.marks⟩

/-- The answer of a parser with the lexicon. Words that it has trees for have none of the characters
that stand in for halves. -/
def tell (lex : MarkedLexicon) (o : Outcome) : Json :=
  if lex.marks.isEmpty || o.trees.isEmpty then o.toJson else o.toJson.unmark lex.marks

end MarkedLexicon

/-- A built-in lexicon by name, or else a kept one by identifier or name. -/
def resolveLexicon (name : String) (db : Database) : Except Store.LoadFault (Option MarkedLexicon) :=
  match English.lexicon? name with
  | some lex => .ok (some ⟨lex, []⟩)
  | none => Collection.lexicons.store.loadAs MarkedLexicon.ofText .lexicon name db

/-- The answer of a parser. It repeats the tokens, so that it cannot be sent if one of them has a half
of a pair in it, whatever else there is to tell. -/
def answerSentence (g : Grammar) (lex : MarkedLexicon) (limit : Nat) (tokens : List AnyText) :
    Response :=
  match Parser.withLimit g lex.lexicon limit, tokens.mapM AnyText.whole? with
  | .error _, _ => .crash
  | .ok _, none => .ok (.object [("input", .array (tokens.map .ofText))])
  | .ok parser, some tokens => match parser.parse tokens with
    | .error _ => .crash
    | .ok outcome => .ok (lex.tell outcome)

/-- Parses a sentence. Tokens go before a text; the grammar is looked for before the lexicon. No name
that has a half of a pair in it can be looked for. -/
def parseSentence (r : ParseRequest) (db : Database) : Response :=
  match r.sentence? with
  | none => .refuse 400 "Provide tokens or text"
  | some tokens => match r.grammar with
    | .halved _ => .crash
    | .whole grammar => match resolveGrammar grammar db with
      | .error _ => .crash
      | .ok none => .refuse 404 (.whole ("Grammar not found: " ++ grammar))
      | .ok (some g) => match r.lexicon with
        | .halved _ => .crash
        | .whole lexicon => match resolveLexicon lexicon db with
          | .error _ => .crash
          | .ok none => .refuse 404 (.whole ("Lexicon not found: " ++ lexicon))
          | .ok (some lex) => answerSentence g lex r.limit tokens

def builtins : Json :=
  .object [("grammars", .strings (English.grammars.map Prod.fst)),
    ("lexicons", .strings (English.lexicons.map Prod.fst))]

namespace Collection

/-- The name of the member that counts rules or readings. -/
def countName : Collection → String
  | .grammars => "rule_count"
  | .lexicons => "entry_count"

/-- A source in the list of a collection. -/
def summary (c : Collection) (r : Record) : Json :=
  .object [("id", r.id), ("name", r.name), ("created_at", r.createdAt), (c.countName, r.size)]

/-- The sources of a collection. -/
def listAnswer (c : Collection) (db : Database) : Response :=
  match c.store.list db with
  | .error _ => .crash
  | .ok records => .ok (.object [(c.segment, .array (records.map c.summary))])

/-- The reason where a source is not there. -/
def notFound : Collection → Response
  | .grammars => .refuse 404 "Grammar not found"
  | .lexicons => .refuse 404 "Lexicon not found"

def ruleJson (r : Rule) : Json :=
  .object [("lhs", .string r.lhs), ("rhs", .strings r.rhs), ("weight", .float r.weight)]

/-- The rules or readings in a text. Rules are made of words, which have no halves of pairs. -/
def contents? (c : Collection) (dsl : Json) : Option (String × Json) :=
  dsl.text?.bind fun text => match c with
    | .grammars => (Grammar.ofText text.shown).toOption.map fun g =>
      ("rules", .array (g.rules.map ruleJson))
    | .lexicons => (Lexicon.ofText text.shown).toOption.map fun lex =>
      ("entries", Json.restore text (.array (lex.readings.map Reading.toJson)))

/-- A source with what its text says. -/
def getAnswer (c : Collection) (id : String) (db : Database) : Response :=
  match c.store.get id db with
  | .error _ => .crash
  | .ok none => c.notFound
  | .ok (some r) => match c.contents? r.dsl with
    | none => .crash
    | some contents =>
      .ok (.object [("id", r.id), ("name", r.name), ("created_at", r.createdAt), contents])

/-- The text of a source. -/
def textAnswer (c : Collection) (id : String) (db : Database) : Response :=
  match c.store.get id db with
  | .error _ => .crash
  | .ok none => c.notFound
  | .ok (some r) => .ok (.object [("id", r.id), ("name", r.name), ("dsl", r.dsl)])

/-- Forgets a source. -/
def deleteAnswer (c : Collection) (id : String) (db : Database) : Response × Database :=
  match c.store.delete id db with
  | (.error _, db) => (.crash, db)
  | (.ok false, db) => (c.notFound, db)
  | (.ok true, db) => (.ok (.object [("deleted", .string id)]), db)

/-- What is told of a new source besides its identifier and name. -/
def createdMembers (c : Collection) (dsl : String) (size : Nat) : List (String × Json) :=
  match c, Grammar.ofText dsl with
  | .grammars, .ok g =>
    [(c.countName, .int size), ("warnings", .strings (g.warnings.map Grammar.Warning.message))]
  | _, _ => [(c.countName, .int size)]

/-- Keeps a text under a name, if it can be read. The answer comes after that. -/
def createAnswer (c : Collection) (r : CreateRequest) (db : Database) (supply : Supply) :
    Response × Database × Supply :=
  match c.store.check r.dsl.shown with
  | .error refusal => (.refuse 400 (.unmark r.dsl.marks refusal.message), db, supply)
  | .ok size =>
    let ((id, time), supply) := supply.next
    let record := Record.ofTexts id r.name c.store.kind.name r.dsl time.text size
    match c.store.keep id record db with
    | (.error _, db) => (.crash, db, supply)
    | (.ok (), db) =>
      (.ok (.object ([("id", .string id), ("name", .ofText r.name)] ++
        c.createdMembers r.dsl.shown size)), db, supply)

end Collection

/-- Answers a request that only reads its database. -/
def reading (r : Request) (s : Service) (answer : Database → Response) : Response × Service :=
  match databaseNumber r with
  | .error found => (.invalid found, s)
  | .ok n => (answer (s.database n), s)

/-- The page for people in its shortest form. It is no JSON. -/
def aboutPage : String :=
  "\n    <!DOCTYPE html>\n    <title>" ++ title ++ "</title>\n"

/-- What an endpoint answers, and the service after it. -/
def Endpoint.answer (r : Request) (parameter : String) (s : Service) :
    Endpoint → Response × Service
  | .page => ({ status := 200, body := .text aboutPage }, s)
  | .description => (.ok Api.description, s)
  | .root => (.ok (.object [("name", .string title), ("version", .string version)]), s)
  | .builtins => (.ok Api.builtins, s)
  | .parse => match withBody r ParseRequest.ofJson with
    | .error obstacle => (obstacle.response, s)
    | .ok (n, body) => (parseSentence body (s.database n), s)
  | .list c => reading r s c.listAnswer
  | .get c => reading r s (c.getAnswer parameter)
  | .text c => reading r s (c.textAnswer parameter)
  | .create c => match withBody r CreateRequest.ofJson with
    | .error obstacle => (obstacle.response, s)
    | .ok (n, body) =>
      let (response, db, supply) := c.createAnswer body (s.database n) s.supply
      (response, { s.setDatabase n db with supply })
  | .delete c => match databaseNumber r with
    | .error found => (.invalid found, s)
    | .ok n =>
      let (response, db) := c.deleteAnswer parameter (s.database n)
      (response, s.setDatabase n db)

/-- The answer of the routes, as if it could carry anything. -/
def routeFully (r : Request) (s : Service) : Response × Service :=
  match destination r.verb r.path with
  | .endpoint what parameter => what.answer r parameter s
  | .wrongMethod => (.refuse 405 "Method Not Allowed", s)
  | .moved =>
    let isPlaced := r.address.isPlaced (r.header? "host")
    (if isPlaced then .moved (toggleSlash r.path) r.address.query else .crash, s)
  | .nowhere => (.refuse 404 "Not Found", s)

/-- The answer of the routes as it is sent. To a question for the head alone it carries nothing. -/
def route (r : Request) (s : Service) : Response × Service :=
  let (response, s) := routeFully r s
  (if r.verb == "HEAD" then response.sent.bare else response.sent, s)

/-- Other origins that may use the service. -/
def allowedOrigins : List String := ["http://localhost:3000", "http://localhost:5173"]

/-- Methods that may be asked for from other origins. -/
def allowedMethods : List String :=
  ["DELETE", "GET", "HEAD", "OPTIONS", "PATCH", "POST", "PUT", "QUERY"]

/-- The answer to a question in advance, whether an origin may use a method, and whether it may do
so from a public network, which no origin may. -/
def preflight (origin method : String) (isPublic : Bool) : Response :=
  let known := allowedOrigins.contains origin
  let refusals := (if known then [] else ["origin"]) ++
    (if allowedMethods.contains method then [] else ["method"]) ++
    (if isPublic then ["private-network"] else [])
  let allowOrigin := if known then some origin else none
  if refusals.isEmpty then { status := 200, body := .text "OK", allowOrigin }
  else
    let reason := "Disallowed CORS " ++ ", ".intercalate refusals
    { status := 400, body := .text reason, allowOrigin }

/-- An answer as an origin gets it. Failures without a reason tell no origin anything. -/
def Response.forOrigin (origin : Option String) (response : Response) : Response :=
  match origin with
  | some o =>
    if allowedOrigins.contains o && response.status != 500 then
      { response with allowOrigin := some o }
    else response
  | none => response

/-- Answers one request. -/
def serve (r : Request) (s : Service) : Response × Service :=
  match r.preflight? with
  | some (origin, method) =>
    let isPublic := (r.header? "access-control-request-private-network").isSome
    (preflight origin method isPublic, s)
  | none =>
    let (response, s) := route r s
    (response.forOrigin (r.header? "origin"), s)

end Earley.Api
