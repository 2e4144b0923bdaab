import Earley.Proofs.Api.Status
import Earley.Proofs.Api.Told
import Earley.Proofs.Store.Loading

namespace Earley.Api

/-- What is asked of a parser, with tokens and names that have no halves of surrogate pairs in them. -/
structure Asked where
  tokens : Option (List String)
  text : Option AnyText
  grammar : String
  lexicon : String
  limit : Nat
deriving DecidableEq, Repr

/-- The request that asks it. -/
def Asked.request (a : Asked) : ParseRequest :=
  ⟨a.tokens.map (·.map .whole), a.text, a.grammar, a.lexicon, a.limit⟩

/-- A request to parse a sentence with sources in a database, under names that no built-in one has. -/
structure Request.Parses (r : Request) (s : Service) (db : Database) (asked : Asked)
    (tokens : List String) : Prop where
  verb : r.verb = "POST"
  path : r.path = "/api/parse".toList
  body : ∃ n, withBody r ParseRequest.ofJson = .ok (n, asked.request) ∧ s.database n = db
  sentence : (asked.tokens.orElse fun _ => asked.text.map fun text => words text.shown) = some tokens
  grammar : English.grammar? asked.grammar = none
  lexicon : English.lexicon? asked.lexicon = none

variable {r : Request} {s : Service} {db : Database} {asked : Asked} {tokens : List String}

/-- A lexicon of a whole text has no halves to put back. -/
theorem MarkedLexicon.ofText_whole {text : String} {lex : Lexicon} (h : Lexicon.ofText text = .ok lex) :
    MarkedLexicon.ofText text = .ok ⟨lex, []⟩ := by
  have hshown : (AnyText.whole text).shown = text := rfl
  rw [ofText, hshown, h]
  simp [AnyText.marks, Except.map]

private theorem Asked.sentence?_request (h : (asked.tokens.orElse fun _ =>
    asked.text.map fun text => words text.shown) = some tokens) :
    asked.request.sentence? = some (tokens.map .whole) := by
  rw [request, ParseRequest.sentence?]
  cases hgiven : asked.tokens with
  | some given =>
    rw [hgiven] at h
    obtain rfl := Option.some.inj h
    rfl
  | none =>
    rw [hgiven] at h
    obtain ⟨text, htext, rfl⟩ := Option.map_eq_some_iff.1 h
    simp [htext]

/-- What is loaded is parsed with. -/
theorem Request.Parses.serve_eq (h : r.Parses s db asked tokens) {g : Grammar} {lex : Lexicon}
    (hgrammar : Store.loadGrammar realm asked.grammar db = .ok (some g))
    (hlexicon : Collection.lexicons.store.loadAs MarkedLexicon.ofText .lexicon asked.lexicon db =
      .ok (some ⟨lex, []⟩)) (hfinite : g.FiniteWeights) :
    ∃ p o, Parser.withLimit g lex asked.limit = .ok p ∧ p.parse tokens = .ok o ∧
      (serve r s).1.status = 200 ∧
      (serve r s).1.body = .json (o.toJson.keepMembers Response.isTold) := by
  obtain ⟨n, hbody, rfl⟩ := h.body
  have hnames : asked.request.Names (s.database n) g ⟨lex, []⟩ tokens := {
    sentence := Asked.sentence?_request h.sentence
    grammar := ⟨asked.grammar, rfl, by rw [resolveGrammar, h.grammar]; exact hgrammar⟩
    lexicon := ⟨asked.lexicon, rfl, by rw [resolveLexicon, h.lexicon]; exact hlexicon⟩ }
  exact serve_parse h.verb h.path hbody hnames hfinite

/-- After any calls to the stores that give out no identifier of a store twice, a source that was created
and not forgotten since has what was given and the size of its text, and loads as its text is read. A
request to parse that names a kept grammar, with finite weights, and a kept lexicon is answered with what a
parser for the two texts finds, and with all of it exactly where no feature in its trees has a name for
inner use. -/
theorem kept_as_given {calls : List Store.Call} (hcalls : Store.Call.Regular realm calls) :
    let db := Store.Call.after realm .empty calls
    (∀ name dsl id time, Store.Call.Keeps realm calls .grammar name dsl id time →
      ∃ g, Grammar.ofText dsl = .ok g ∧
        (Store.mk .grammar realm).get id db =
          .ok (some (Source.record ⟨id, name, "grammar", dsl, time.text, g.rules.length⟩)) ∧
        Store.loadGrammar realm id db = .ok (some g)) ∧
    (∀ name dsl id time, Store.Call.Keeps realm calls .lexicon name dsl id time →
      ∃ lex, Lexicon.ofText dsl = .ok lex ∧
        (Store.mk .lexicon realm).get id db =
          .ok (some (Source.record ⟨id, name, "lexicon", dsl, time.text, lex.size⟩)) ∧
        Store.loadLexicon realm id db = .ok (some lex)) ∧
    ∀ r s asked tokens, Request.Parses r s db asked tokens →
      ∀ name dsl time name' dsl' time', Store.Call.Keeps realm calls .grammar name dsl asked.grammar time →
        Store.Call.Keeps realm calls .lexicon name' dsl' asked.lexicon time' →
        ∀ g lex, Grammar.ofText dsl = .ok g → Lexicon.ofText dsl' = .ok lex → g.FiniteWeights →
          ∃ p o, Parser.withLimit g lex asked.limit = .ok p ∧ p.parse tokens = .ok o ∧
            (serve r s).1.status = 200 ∧
            (serve r s).1.body = .json (o.toJson.keepMembers Response.isTold) ∧
            ((serve r s).1.body = .json o.toJson ↔ o.IsTold) := by
  intro db
  have hrealm : realm.toList.all Glob.isLiteral = true := by decide
  refine ⟨fun name dsl id time h => ?_, fun name dsl id time h => ?_, ?_⟩
  · obtain ⟨size, hcheck, hget, hload⟩ := h.exists_get hcalls hrealm
    obtain ⟨g, hread, rfl⟩ := Store.check_grammar_iff.1 hcheck
    exact ⟨g, hread, hget, hload _ _ (Grammar.ofText ·.shown) .grammar g hread⟩
  · obtain ⟨size, hcheck, hget, hload⟩ := h.exists_get hcalls hrealm
    obtain ⟨lex, hread, rfl⟩ := Store.check_lexicon_iff.1 hcheck
    exact ⟨lex, hread, hget, hload _ _ (Lexicon.ofText ·.shown) .lexicon lex hread⟩
  intro r s asked tokens hparses name dsl time name' dsl' time' hkept hkept' g lex hg hlex hfinite
  obtain ⟨-, -, -, hload⟩ := hkept.exists_get hcalls hrealm
  obtain ⟨-, -, -, hload'⟩ := hkept'.exists_get hcalls hrealm
  obtain ⟨p, o, hparser, hparse, hstatus, hbody⟩ := hparses.serve_eq
    (hload _ _ (Grammar.ofText ·.shown) .grammar g hg)
    (hload' _ _ MarkedLexicon.ofText .lexicon _ (MarkedLexicon.ofText_whole hlex)) hfinite
  refine ⟨p, o, hparser, hparse, hstatus, hbody, ?_⟩
  rw [hbody, Body.json.injEq, o.keepMembers_toJson_iff]

/-- A grammar and a lexicon that are kept, the lexicon under a name that is the identifier of the grammar;
a text that is refused, and an identifier that another store has given out. -/
def stocking : List Store.Call :=
  [⟨.grammar, .create "g" "S -> N" {}⟩,
    ⟨.lexicon, .create "000000000001" "x : N _sa=1 k=v" (Supply.next {}).2⟩,
    ⟨.grammar, .create "000000000002" "S -> N |" {}⟩, ⟨.lexicon, .delete "000000000001"⟩]

/-- The service over what they leave. -/
def stocked : Service := ⟨[(0, Store.Call.after realm .empty stocking)], {}⟩

/-- The parser for the two texts. -/
def marked : Parser where
  grammar := {
    rules := [⟨"S", ["N"], Binary64.one⟩]
    proper := by
      unfold Rule.IsProper
      decide }
  lexicon := ⟨[⟨"x", [⟨"x", "N", "x", [("_sa", .text "1"), ("k", .text "v")]⟩]⟩]⟩
  limit := Forest.defaultLimit
  limit_pos := by decide

/-- What is asked of it. -/
def markedWord : Asked := ⟨some ["x"], none, "000000000001", "000000000002", Forest.defaultLimit⟩

/-- The request that asks it. -/
def asking : Request :=
  .plain "POST" "/api/parse" (some (.object [("grammar", .string "000000000001"),
    ("lexicon", .string "000000000002"), ("tokens", .strings ["x"])]))

private theorem regular_stocking : Store.Call.Regular realm stocking where
  stores := by decide
  writable := by decide +kernel
  distinct := fun kind => by cases kind <;> decide

private theorem keeps_grammar_stocking :
    Store.Call.Keeps realm stocking .grammar "g" "S -> N" "000000000001" (Instant.sinceStart 1) :=
  ⟨[], {}, stocking.drop 1, rfl, rfl, rfl, by decide⟩

private theorem keeps_lexicon_stocking :
    Store.Call.Keeps realm stocking .lexicon "000000000001" "x : N _sa=1 k=v"
    "000000000002" (Instant.sinceStart 2) :=
  ⟨stocking.take 1, (Supply.next {}).2, stocking.drop 2, rfl, rfl, rfl, by decide⟩

private theorem parses_asking :
    asking.Parses stocked (Store.Call.after realm .empty stocking) markedWord ["x"] where
  verb := rfl
  path := by decide +kernel
  body := ⟨0, rfl, rfl⟩
  sentence := rfl
  grammar := rfl
  lexicon := rfl

private theorem finiteWeights_marked : marked.grammar.FiniteWeights := by
  unfold Grammar.FiniteWeights
  decide

private theorem ofText_marked : Grammar.ofText "S -> N" = .ok marked.grammar ∧
    Lexicon.ofText "x : N _sa=1 k=v" = .ok marked.lexicon :=
  ⟨rfl, rfl⟩

/-- A request over the stocked service is answered with what the parser for the two texts finds, as far as
it is told. -/
theorem kept_as_given_stocking : Store.Call.Regular realm stocking ∧
    asking.Parses stocked (Store.Call.after realm .empty stocking) markedWord ["x"] ∧
    ∃ p o, Parser.withLimit marked.grammar marked.lexicon markedWord.limit = .ok p ∧
      p.parse ["x"] = .ok o ∧ (serve asking stocked).1.status = 200 ∧
      (serve asking stocked).1.body = .json (o.toJson.keepMembers Response.isTold) := by
  obtain ⟨p, o, hparser, hparse, hstatus, hbody, -⟩ := (kept_as_given regular_stocking).2.2 asking stocked
    markedWord ["x"] parses_asking _ _ _ _ _ _ keeps_grammar_stocking keeps_lexicon_stocking marked.grammar
    marked.lexicon ofText_marked.1 ofText_marked.2 finiteWeights_marked
  exact ⟨regular_stocking, parses_asking, p, o, hparser, hparse, hstatus, hbody⟩

/-- A feature whose name is for inner use is found by the parser, but not told. -/
theorem told_in_part : Store.Call.Regular realm stocking ∧
    Store.Call.Keeps realm stocking .grammar "g" "S -> N" "000000000001" (Instant.sinceStart 1) ∧
    Store.Call.Keeps realm stocking .lexicon "000000000001" "x : N _sa=1 k=v" "000000000002"
      (Instant.sinceStart 2) ∧
    asking.Parses stocked (Store.Call.after realm .empty stocking) markedWord ["x"] ∧
    Grammar.ofText "S -> N" = .ok marked.grammar ∧
    Lexicon.ofText "x : N _sa=1 k=v" = .ok marked.lexicon ∧ marked.grammar.FiniteWeights ∧
    ∃ o, marked.parse ["x"] = .ok o ∧ (serve asking stocked).1.body ≠ .json o.toJson := by
  obtain ⟨hread, hread'⟩ := ofText_marked
  obtain ⟨-, -, -, hload⟩ := keeps_grammar_stocking.exists_get regular_stocking (by decide)
  obtain ⟨-, -, -, hload'⟩ := keeps_lexicon_stocking.exists_get regular_stocking (by decide)
  obtain ⟨p, o, hparser, hparse, -, hbody⟩ := parses_asking.serve_eq
    (hload _ _ (Grammar.ofText ·.shown) .grammar _ hread)
    (hload' _ _ MarkedLexicon.ofText .lexicon _ (MarkedLexicon.ofText_whole hread')) finiteWeights_marked
  obtain rfl : p = marked := Except.ok.inj (hparser.symm.trans rfl)
  refine ⟨regular_stocking, keeps_grammar_stocking, keeps_lexicon_stocking, parses_asking, hread, hread',
    finiteWeights_marked, o, hparse, ?_⟩
  obtain ⟨o', hparse', htrees⟩ := marked.exists_parse ["x"]
  obtain rfl : o' = o := Except.ok.inj (hparse'.symm.trans hparse)
  rw [hbody, Ne, Body.json.injEq, Outcome.keepMembers_toJson_iff, Outcome.IsTold, htrees]
  decide +kernel

end Earley.Api
