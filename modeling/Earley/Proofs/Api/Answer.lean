import Earley.Api.Service
import Earley.Proofs.Forest.Sentence
import Earley.Proofs.Json.Strict
import Earley.Proofs.Json.Units
import Earley.Proofs.Store.Kept

namespace Earley

/-- The weights of all rules are finite. A weight that is written too large comes out infinite. -/
def Grammar.FiniteWeights (g : Grammar) : Prop := ∀ r ∈ g.rules, r.weight.isFinite = true

instance (g : Grammar) : Decidable g.FiniteWeights := inferInstanceAs (Decidable (∀ r ∈ g.rules, _))

/-- The weight of a tree is the weight of a rule. -/
theorem Parser.isFinite_of_mem_trees {p : Parser} (h : p.grammar.FiniteWeights) {tokens : List String}
    {tree : Forest.Parse} (htree : tree ∈ p.trees tokens) : ∀ w ∈ tree.weight, w.isFinite = true := by
  obtain ⟨key, hoffer⟩ := mem_trees htree
  obtain ⟨item, hitem, part, -, heq⟩ := Forest.mem_offers.1 hoffer
  have hrule := (Chart.build_sound _ _ _ _ item (Forest.mem_completed.1 hitem).1).rule
  obtain ⟨rfl, -⟩ := Prod.mk.inj heq
  rintro w ⟨⟩
  exact h item.rule hrule

/-- What is found by a name stands beside it in the table. -/
theorem English.mem_of_find? {α : Type} {table : List (String × α)} {name : String} {value : α}
    (h : (table.find? (·.1 == name)).map Prod.snd = some value) : (name, value) ∈ table := by
  obtain ⟨⟨found, _⟩, hfind, rfl⟩ := Option.map_eq_some_iff.1 h
  obtain rfl : found = name := by simpa using List.find?_some hfind
  exact List.mem_of_find?_eq_some hfind

/-- No built-in grammar has a weight that is not finite. -/
theorem English.finiteWeights {name : String} {g : Grammar} (h : English.grammar? name = some g) :
    g.FiniteWeights := by
  have hbuilt : English.grammar.FiniteWeights := by
    unfold Grammar.FiniteWeights
    decide +kernel
  obtain ⟨-, rfl⟩ := Prod.mk.inj (List.mem_singleton.1 (English.mem_of_find? h))
  exact hbuilt

/-- A whole text that is built again from its characters is the same. -/
theorem AnyText.unmark_nil (s : String) : AnyText.unmark [] s = .whole s :=
  Json.ofCodes_codes (.whole s)

private theorem AnyText.exists_of_isWhole {t : AnyText} (h : t.isWhole = true) : ∃ s, t = .whole s := by
  cases t with
  | whole s => exact ⟨s, rfl⟩
  | halved text => cases h

private theorem AnyText.marks_of_isWhole {t : AnyText} (h : t.isWhole = true) : t.marks = [] := by
  cases t with
  | whole s => rfl
  | halved text => cases h

namespace Api

variable {P : SourceKind → Deposit → Prop} {db : Database}

/-- The first part of the keys of both collections. -/
def realm : String := "buffalo"

/-- The database has sources of the service only, each with a property. -/
abbrev Kept (P : SourceKind → Deposit → Prop) (db : Database) : Prop := db.Kept realm P

private theorem Kept.of_collection (h : Kept P db) (c : Collection) : db.Kept c.store.realm P := by
  cases c <;> exact h

/-- A source whose name and text have no halves of surrogate pairs in them. -/
def IsWhole (_ : SourceKind) (d : Deposit) : Prop := d.name.isWhole = true ∧ d.dsl.isWhole = true

namespace Response

/-- An answer is told as long as strict JSON can carry its value. -/
theorem isSendable_ok {value : Json} (h : value.isStrict = true) : (ok value).isSendable = true :=
  Json.isStrict_keepMembers isTold value h

/-- What can be sent is sent as it is. -/
theorem sent_eq {response : Response} (h : response.isSendable = true) : response.sent = response :=
  if_pos h

/-- What cannot be sent is a failure. -/
theorem status_sent_of_not {response : Response} (h : ¬response.isSendable = true) :
    response.sent.status = 500 := by
  rw [sent, if_neg h]
  rfl

/-- An answer is sent as a failure where it is one, and where it cannot be sent. -/
theorem status_sent_iff (response : Response) :
    500 ≤ response.sent.status ↔ 500 ≤ response.status ∨ response.isSendable = false := by
  rw [sent]
  cases hsendable : response.isSendable with
  | true => simp
  | false => simp [crash]

/-- The status stays when the body is left out. -/
theorem status_bare (response : Response) : response.bare.status = response.status := by
  rw [bare]
  split <;> rfl

/-- The status is the same for all origins. -/
theorem status_forOrigin (origin : Option String) (response : Response) :
    (response.forOrigin origin).status = response.status := by
  cases origin with
  | none => rfl
  | some o =>
    rw [forOrigin]
    split <;> rfl

/-- The body is the same for all origins. -/
theorem body_forOrigin (origin : Option String) (response : Response) :
    (response.forOrigin origin).body = response.body := by
  cases origin with
  | none => rfl
  | some o =>
    rw [forOrigin]
    split <;> rfl

end Response

/-- A grammar that is found is built in, or was read from a kept text. -/
theorem exists_resolveGrammar (h : Kept P db) (name : String) :
    ∃ found, resolveGrammar name db = .ok found ∧ ∀ g ∈ found,
      English.grammar? name = some g ∨ ∃ d, P .grammar d ∧ Grammar.ofText d.dsl.shown = .ok g := by
  rw [resolveGrammar]
  cases hbuilt : English.grammar? name with
  | some g => exact ⟨some g, rfl, fun found hg => .inl hg⟩
  | none =>
    have hread (d : Deposit) (hsound : d.Sound .grammar) (hd : P .grammar d) :
        ∃ g, Grammar.ofText d.dsl.shown = .ok g ∧ ∃ d, P .grammar d ∧ Grammar.ofText d.dsl.shown = .ok g :=
      hsound.exists_grammar.imp fun g hread => ⟨hread, d, hd, hread⟩
    obtain ⟨found, hload, hfound⟩ : ∃ found, Store.loadGrammar realm name db = .ok found ∧
        ∀ g ∈ found, ∃ d, P .grammar d ∧ Grammar.ofText d.dsl.shown = .ok g :=
      Store.exists_loadAs h hread .grammar name
    exact ⟨found, hload, fun g hg => .inr (hfound g hg)⟩

/-- A lexicon that is found is built in, or was read from a kept text. -/
theorem exists_resolveLexicon (h : Kept P db) (name : String) :
    ∃ found, resolveLexicon name db = .ok found ∧ ∀ lex ∈ found,
      lex.marks = [] ∨ ∃ d, P .lexicon d ∧ d.dsl.marks = lex.marks := by
  rw [resolveLexicon]
  cases English.lexicon? name with
  | some lex => exact ⟨some ⟨lex, []⟩, rfl, fun found hlex => .inl (Option.some.inj hlex ▸ rfl)⟩
  | none =>
    have hread (d : Deposit) (hsound : d.Sound .lexicon) (hd : P .lexicon d) :
        ∃ lex, MarkedLexicon.ofText d.dsl = .ok lex ∧ ∃ d, P .lexicon d ∧ d.dsl.marks = lex.marks := by
      obtain ⟨lex, hread⟩ := hsound.exists_lexicon
      exact ⟨_, by rw [MarkedLexicon.ofText, hread]; rfl, d, hd, rfl⟩
    obtain ⟨found, hload, hfound⟩ :=
      Store.exists_loadAs (s := Collection.lexicons.store) h hread .lexicon name
    exact ⟨found, hload, fun lex hlex => .inr (hfound lex hlex)⟩

namespace ParseRequest

/-- A name with a half of a surrogate pair in it would have to be looked for. The grammar is looked for
only if there is a sentence, and the lexicon only if the grammar is there. -/
def LooksForHalved (r : ParseRequest) (db : Database) : Prop :=
  r.sentence?.isSome = true ∧ (r.grammar.isWhole = false ∨
    r.lexicon.isWhole = false ∧ ∃ name g, r.grammar = .whole name ∧ resolveGrammar name db = .ok (some g))

/-- The sentence of a request to parse, and the grammar and the lexicon that it names. -/
structure Names (r : ParseRequest) (db : Database) (g : Grammar) (lex : MarkedLexicon)
    (tokens : List String) : Prop where
  sentence : r.sentence? = some (tokens.map .whole)
  grammar : ∃ name, r.grammar = .whole name ∧ resolveGrammar name db = .ok (some g)
  lexicon : ∃ name, r.lexicon = .whole name ∧ resolveLexicon name db = .ok (some lex)

/-- A parser finds a tree for the request that has a weight which is not finite. -/
def FindsOverflow (r : ParseRequest) (db : Database) : Prop :=
  ∃ g lex tokens p o, r.Names db g lex tokens ∧ Parser.withLimit g lex.lexicon r.limit = .ok p ∧
    p.parse tokens = .ok o ∧ ¬o.FiniteWeights

/-- Nothing in a request to parse has a half of a surrogate pair in it. -/
structure IsWhole (r : ParseRequest) : Prop where
  tokens : ∀ tokens ∈ r.tokens, ∀ t ∈ tokens, t.isWhole = true
  grammar : r.grammar.isWhole = true
  lexicon : r.lexicon.isWhole = true

end ParseRequest

private theorem exists_map_whole {tokens : List AnyText} (h : ∀ t ∈ tokens, t.isWhole = true) :
    ∃ texts : List String, tokens = texts.map .whole := by
  induction tokens with
  | nil => exact ⟨[], rfl⟩
  | cons t rest ih =>
    obtain ⟨ht, hrest⟩ := List.forall_mem_cons.1 h
    obtain ⟨texts, rfl⟩ := ih hrest
    cases t with
    | whole s => exact ⟨s :: texts, rfl⟩
    | halved text => cases ht

private theorem mapM_whole? (texts : List String) :
    (texts.map AnyText.whole).mapM AnyText.whole? = some texts := by
  induction texts with
  | nil => rfl
  | cons s rest ih => rw [List.map_cons, List.mapM_cons, ih]; rfl

/-- A parser always answers. Tokens that are whole are parsed, and the answer tells what was found. -/
theorem answerSentence_eq (g : Grammar) (lex : MarkedLexicon) {limit : Nat} (hlimit : 0 < limit)
    (tokens : List String) : ∃ p o, Parser.withLimit g lex.lexicon limit = .ok p ∧ p.parse tokens = .ok o ∧
      o.trees = p.trees tokens ∧ p.grammar = g ∧
      answerSentence g lex limit (tokens.map .whole) = .ok (lex.tell o) := by
  obtain ⟨o, hparse, htrees⟩ := Parser.exists_parse ⟨g, lex.lexicon, limit, hlimit⟩ tokens
  have hparser : Parser.withLimit g lex.lexicon limit = .ok ⟨g, lex.lexicon, limit, hlimit⟩ := dif_pos hlimit
  refine ⟨_, o, hparser, hparse, htrees, rfl, ?_⟩
  rw [answerSentence, hparser, mapM_whole?]
  dsimp only
  rw [hparse]

private theorem status_answerSentence (g : Grammar) (lex : MarkedLexicon) {limit : Nat} (hlimit : 0 < limit)
    (tokens : List AnyText) : (answerSentence g lex limit tokens).status = 200 := by
  have hparser : Parser.withLimit g lex.lexicon limit = .ok ⟨g, lex.lexicon, limit, hlimit⟩ := dif_pos hlimit
  rw [answerSentence, hparser]
  cases hwhole : tokens.mapM AnyText.whole? with
  | none => rfl
  | some texts =>
    obtain ⟨o, hparse, -⟩ := Parser.exists_parse ⟨g, lex.lexicon, limit, hlimit⟩ texts
    dsimp only
    rw [hparse]
    rfl

/-- With a sentence, a grammar and a lexicon, the answer is that of a parser. -/
theorem ParseRequest.Names.parseSentence_eq {r : ParseRequest} {g : Grammar} {lex : MarkedLexicon}
    {tokens : List String} (h : r.Names db g lex tokens) :
    parseSentence r db = answerSentence g lex r.limit (tokens.map .whole) := by
  obtain ⟨name, hname, hgrammar⟩ := h.grammar
  obtain ⟨name', hname', hlexicon⟩ := h.lexicon
  rw [parseSentence, h.sentence]
  dsimp only
  rw [hname]
  dsimp only
  rw [hgrammar]
  dsimp only
  rw [hname']
  dsimp only
  rw [hlexicon]

/-- A request to parse fails exactly where it looks for a name that cannot be looked for. -/
theorem status_parseSentence_iff (h : Kept P db) {r : ParseRequest} (hlimit : 0 < r.limit) :
    500 ≤ (parseSentence r db).status ↔ r.LooksForHalved db := by
  rw [parseSentence, ParseRequest.LooksForHalved]
  cases r.sentence? with
  | none => simp [Response.refuse]
  | some tokens =>
    cases r.grammar with
    | halved text => simp [Response.crash, AnyText.isWhole, AnyText.whole?]
    | whole name =>
      obtain ⟨found, hgrammar, -⟩ := exists_resolveGrammar h name
      cases found with
      | none => simp [hgrammar, Response.refuse, AnyText.isWhole, AnyText.whole?]
      | some g =>
        cases r.lexicon with
        | halved text => simp [hgrammar, Response.crash, AnyText.isWhole, AnyText.whole?]
        | whole name' =>
          obtain ⟨found', hlexicon, -⟩ := exists_resolveLexicon h name'
          cases found' with
          | none => simp [hgrammar, hlexicon, Response.refuse, AnyText.isWhole, AnyText.whole?]
          | some lex =>
            simp [hgrammar, hlexicon, status_answerSentence g lex hlimit, AnyText.isWhole, AnyText.whole?]

/-- Where a lexicon has no halves in it, the answer of a parser can be sent exactly if all weights in
it are finite. -/
theorem isSendable_tell_iff {lex : MarkedLexicon} (hmarks : lex.marks = []) (o : Outcome) :
    (Response.ok (lex.tell o)).isSendable = true ↔ o.FiniteWeights := by
  have htell : lex.tell o = o.toJson := by rw [MarkedLexicon.tell, hmarks]; rfl
  rw [htell]
  exact Outcome.isStrict_keepMembers_iff (by decide) (by decide)

/-- The sentence of a whole request is whole: no word of a text has a half in it. -/
theorem ParseRequest.IsWhole.exists_texts {r : ParseRequest} (h : r.IsWhole) {tokens : List AnyText}
    (hsentence : r.sentence? = some tokens) : ∃ texts : List String, tokens = texts.map .whole := by
  rw [ParseRequest.sentence?] at hsentence
  cases hgiven : r.tokens with
  | some given =>
    rw [hgiven] at hsentence
    obtain rfl := Option.some.inj hsentence
    exact exists_map_whole (h.tokens _ hgiven)
  | none =>
    rw [hgiven] at hsentence
    obtain ⟨text, -, rfl⟩ := Option.map_eq_some_iff.1 hsentence
    exact ⟨_, rfl⟩

/-- No kept lexicon has halves of surrogate pairs in it where all sources are whole. -/
theorem ParseRequest.Names.marks_eq_nil (h : Kept Api.IsWhole db) {r : ParseRequest} {g : Grammar}
    {lex : MarkedLexicon} {tokens : List String} (hnames : r.Names db g lex tokens) : lex.marks = [] := by
  obtain ⟨name, -, hlexicon⟩ := hnames.lexicon
  obtain ⟨found, hfound, hmarks⟩ := exists_resolveLexicon h name
  obtain rfl := Except.ok.inj (hlexicon.symm.trans hfound)
  obtain hnil | ⟨d, hwhole, heq⟩ := hmarks lex rfl
  · exact hnil
  · rw [← heq, AnyText.marks_of_isWhole hwhole.2]

/-- A whole request is refused, or has a sentence, a grammar and a lexicon. -/
theorem parseSentence_cases (h : Kept P db) {r : ParseRequest} (hwhole : r.IsWhole) :
    (∃ status reason, parseSentence r db = .refuse status (.whole reason)) ∨
      ∃ g lex tokens, r.Names db g lex tokens := by
  obtain ⟨name, hname⟩ := AnyText.exists_of_isWhole hwhole.grammar
  obtain ⟨name', hname'⟩ := AnyText.exists_of_isWhole hwhole.lexicon
  obtain ⟨found, hgrammar, -⟩ := exists_resolveGrammar h name
  obtain ⟨found', hlexicon, -⟩ := exists_resolveLexicon h name'
  cases hsentence : r.sentence? with
  | none => exact .inl ⟨_, _, by rw [parseSentence, hsentence]⟩
  | some tokens =>
    obtain ⟨texts, rfl⟩ := hwhole.exists_texts hsentence
    rw [parseSentence, hsentence, hname]
    dsimp only
    rw [hgrammar]
    cases found with
    | none => exact .inl ⟨_, _, rfl⟩
    | some g =>
      dsimp only
      rw [hname']
      dsimp only
      rw [hlexicon]
      cases found' with
      | none => exact .inl ⟨_, _, rfl⟩
      | some lex => exact .inr ⟨g, lex, texts, hsentence, ⟨name, hname, hgrammar⟩, name', hname', hlexicon⟩

/-- Over whole sources, the answer to a whole request can be sent unless a parser found a weight for it
that is not finite. -/
theorem isSendable_parseSentence_iff (h : Kept IsWhole db) {r : ParseRequest} (hwhole : r.IsWhole)
    (hlimit : 0 < r.limit) : (parseSentence r db).isSendable = true ↔ ¬r.FindsOverflow db := by
  have hanswer {g : Grammar} {lex : MarkedLexicon} {tokens : List String} (hnames : r.Names db g lex tokens) :
      ∃ p o, Parser.withLimit g lex.lexicon r.limit = .ok p ∧ p.parse tokens = .ok o ∧
        ((parseSentence r db).isSendable = true ↔ o.FiniteWeights) := by
    obtain ⟨p, o, hparser, hparse, -, -, heq⟩ := answerSentence_eq g lex hlimit tokens
    refine ⟨p, o, hparser, hparse, ?_⟩
    rw [hnames.parseSentence_eq, heq, isSendable_tell_iff (hnames.marks_eq_nil h)]
  constructor
  · rintro hsendable ⟨g, lex, tokens, p, o, hnames, hparser, hparse, hoverflow⟩
    obtain ⟨p', o', hparser', hparse', hiff⟩ := hanswer hnames
    obtain rfl := Except.ok.inj (hparser'.symm.trans hparser)
    obtain rfl := Except.ok.inj (hparse'.symm.trans hparse)
    exact hoverflow (hiff.1 hsendable)
  · intro hnone
    obtain ⟨status, reason, heq⟩ | ⟨g, lex, tokens, hnames⟩ := parseSentence_cases h hwhole
    · rw [heq]
      rfl
    · obtain ⟨p, o, hparser, hparse, hiff⟩ := hanswer hnames
      exact hiff.2 (by_contra fun hoverflow => hnone ⟨g, lex, tokens, p, o, hnames, hparser, hparse, hoverflow⟩)

namespace Collection

variable (c : Collection)

/-- Kept sources can always be listed, whatever the list carries. -/
theorem status_listAnswer (h : Kept P db) : (c.listAnswer db).status = 200 := by
  obtain ⟨records, hlist, -⟩ := Store.exists_list (h.of_collection c)
  rw [listAnswer, hlist]
  rfl

/-- A list of whole sources can be sent. -/
theorem isSendable_listAnswer (h : Kept IsWhole db) : (c.listAnswer db).isSendable = true := by
  obtain ⟨records, hlist, hwritten⟩ := Store.exists_list (h.of_collection c)
  rw [listAnswer, hlist]
  refine Response.isSendable_ok (Json.isStrict_object.2 ?_)
  simp only [List.forall_mem_cons]
  refine ⟨Json.isStrict_array.2 (List.forall_mem_map.2 fun r hr => ?_), List.forall_mem_nil _⟩
  obtain ⟨d, -, hwhole, rfl⟩ := hwritten r hr
  refine Json.isStrict_object.2 ?_
  simp only [List.forall_mem_cons]
  exact ⟨rfl, Json.isStrict_ofText.2 hwhole.1, rfl, rfl, List.forall_mem_nil _⟩

private theorem contents?_grammars {t : AnyText} {g : Grammar} (h : Grammar.ofText t.shown = .ok g) :
    grammars.contents? (.ofText t) = some ("rules", .array (g.rules.map ruleJson)) := by
  rw [contents?, Json.text?_ofText]
  simp only [Option.bind_some, h]
  rfl

private theorem contents?_lexicons {t : AnyText} {lex : Lexicon} (h : Lexicon.ofText t.shown = .ok lex) :
    lexicons.contents? (.ofText t) =
      some ("entries", Json.restore t (.array (lex.readings.map Reading.toJson))) := by
  rw [contents?, Json.text?_ofText]
  simp only [Option.bind_some, h]
  rfl

/-- What a text says that was taken in can be read again. -/
theorem exists_contents? {d : Deposit} (h : d.Sound c.store.kind) :
    ∃ contents, c.contents? (.ofText d.dsl) = some contents := by
  cases c with
  | grammars => exact h.exists_grammar.elim fun g hread => ⟨_, contents?_grammars hread⟩
  | lexicons => exact h.exists_lexicon.elim fun lex hread => ⟨_, contents?_lexicons hread⟩

private theorem status_notFound : c.notFound.status = 404 := by cases c <;> rfl

private theorem isSendable_notFound : c.notFound.isSendable = true := by cases c <;> rfl

/-- A kept source can be shown, whatever its answer carries. -/
theorem status_getAnswer_lt (h : Kept P db) (id : String) : (c.getAnswer id db).status < 500 := by
  obtain ⟨found, hget, hwritten⟩ := Store.exists_get (h.of_collection c) id
  rw [getAnswer, hget]
  cases found with
  | none => exact c.status_notFound.trans_lt (by decide)
  | some r =>
    obtain ⟨d, hsound, -, rfl⟩ := hwritten r rfl
    obtain ⟨contents, hcontents⟩ := c.exists_contents? hsound
    have hdsl : (d.record c.store.kind).dsl = .ofText d.dsl := rfl
    dsimp only
    rw [hdsl, hcontents]
    exact (by decide : 200 < 500)

/-- The rules of a grammar can be told exactly where their weights are finite. -/
theorem isStrict_rules_iff (g : Grammar) :
    ((Json.array (g.rules.map ruleJson)).keepMembers Response.isTold).isStrict = true ↔ g.FiniteWeights := by
  have hnames : Response.isTold "lhs" = true ∧ Response.isTold "rhs" = true ∧
    Response.isTold "weight" = true := by decide
  have hrule (r : Rule) : ((ruleJson r).keepMembers Response.isTold).isStrict = true ↔
      r.weight.isFinite = true := by
    have hrhs := Json.isStrict_keepMembers Response.isTold _ (Json.isStrict_strings r.rhs)
    rw [ruleJson, Json.isStrict_keepMembers_object]
    simp [hnames, hrhs, Json.keepMembers, Json.isStrict]
  rw [Json.isStrict_keepMembers_array, List.forall_mem_map]
  exact forall₂_congr fun r _ => hrule r

/-- The answer that would show a source has a weight to tell that is not finite. -/
def ShowsOverflow (id : String) (db : Database) : Prop :=
  c = .grammars ∧ ∃ r t g, c.store.get id db = .ok (some r) ∧ r.dsl.text? = some t ∧
    Grammar.ofText t.shown = .ok g ∧ ¬g.FiniteWeights

/-- A whole source can be shown, unless it is a grammar with a weight that is not finite. -/
theorem isSendable_getAnswer_iff (h : Kept IsWhole db) (id : String) :
    (c.getAnswer id db).isSendable = true ↔ ¬c.ShowsOverflow id db := by
  obtain ⟨found, hget, hwritten⟩ := Store.exists_get (h.of_collection c) id
  rw [getAnswer, ShowsOverflow, hget]
  cases found with
  | none => simp [c.isSendable_notFound]
  | some r =>
    obtain ⟨d, hsound, ⟨hname, hdsl⟩, rfl⟩ := hwritten r rfl
    have hnames : Response.isTold "rules" = true ∧ Response.isTold "entries" = true := by decide
    have htext : (d.record c.store.kind).dsl.text? = some d.dsl := Json.text?_ofText d.dsl
    have hname' := Json.isStrict_keepMembers Response.isTold _ (Json.isStrict_ofText.2 hname)
    have hsendable (contents : String × Json) :
        (Response.ok (.object [("id", (d.record c.store.kind).id), ("name", (d.record c.store.kind).name),
          ("created_at", (d.record c.store.kind).createdAt), contents])).isSendable = true ↔
            (Response.isTold contents.1 = true →
              (contents.2.keepMembers Response.isTold).isStrict = true) := by
      rw [Response.ok, Response.isSendable, Json.isStrict_keepMembers_object]
      simp [Deposit.record, Record.ofTexts, hname', Json.keepMembers, Json.isStrict]
    cases c with
    | lexicons =>
      obtain ⟨lex, hread⟩ := hsound.exists_lexicon
      have hentries : (Json.array (lex.readings.map Reading.toJson)).isStrict = true :=
        Json.isStrict_array.2 (List.forall_mem_map.2 fun r _ => r.isStrict_toJson)
      have hrestore : Json.restore d.dsl (.array (lex.readings.map Reading.toJson)) =
          .array (lex.readings.map Reading.toJson) := by
        rw [Json.restore, AnyText.marks_of_isWhole hdsl]
        rfl
      have hcontents := contents?_lexicons hread
      rw [hrestore] at hcontents
      have hdsl' : (d.record Collection.lexicons.store.kind).dsl = .ofText d.dsl := rfl
      simp [hdsl', hcontents, hsendable, Json.isStrict_keepMembers _ _ hentries]
    | grammars =>
      obtain ⟨g, hread⟩ := hsound.exists_grammar
      have hdsl' : (d.record Collection.grammars.store.kind).dsl = .ofText d.dsl := rfl
      simp [hdsl', contents?_grammars hread, hsendable, hnames, isStrict_rules_iff, hread]

/-- The text of a kept source can be looked up, whatever its answer carries. -/
theorem status_textAnswer_lt (h : Kept P db) (id : String) : (c.textAnswer id db).status < 500 := by
  obtain ⟨found, hget, -⟩ := Store.exists_get (h.of_collection c) id
  rw [textAnswer, hget]
  cases found with
  | none => exact c.status_notFound.trans_lt (by decide)
  | some r => exact (by decide : 200 < 500)

/-- The text of a whole source can be sent. -/
theorem isSendable_textAnswer (h : Kept IsWhole db) (id : String) :
    (c.textAnswer id db).isSendable = true := by
  obtain ⟨found, hget, hwritten⟩ := Store.exists_get (h.of_collection c) id
  rw [textAnswer, hget]
  cases found with
  | none => exact c.isSendable_notFound
  | some r =>
    obtain ⟨d, -, ⟨hname, hdsl⟩, rfl⟩ := hwritten r rfl
    refine Response.isSendable_ok (Json.isStrict_object.2 ?_)
    simp only [List.forall_mem_cons]
    exact ⟨rfl, Json.isStrict_ofText.2 hname, Json.isStrict_ofText.2 hdsl, List.forall_mem_nil _⟩

/-- A source is forgotten, or there was none; either can be told. -/
theorem deleteAnswer_of_kept (h : Kept P db) (id : String) : (c.deleteAnswer id db).1.status < 500 ∧
    (c.deleteAnswer id db).1.isSendable = true ∧ Kept P (c.deleteAnswer id db).2 := by
  obtain ⟨found, after, hdelete, hafter⟩ := Store.exists_delete (h.of_collection c) id
  have hkept : Kept P after := by cases c <;> exact hafter
  rw [deleteAnswer, hdelete]
  cases found with
  | false => exact ⟨c.status_notFound.trans_lt (by decide), c.isSendable_notFound, hkept⟩
  | true => exact ⟨(by decide : 200 < 500), Response.isSendable_ok rfl, hkept⟩

/-- The count and the warnings for a new source can always be sent. -/
theorem isStrict_createdMembers (dsl : String) (size : Nat) :
    ∀ m ∈ c.createdMembers dsl size, m.2.isStrict = true := by
  unfold createdMembers
  split
  · simp only [List.forall_mem_cons]
    exact ⟨rfl, Json.isStrict_strings _, List.forall_mem_nil _⟩
  · simp only [List.forall_mem_cons]
    exact ⟨rfl, List.forall_mem_nil _⟩

/-- A text is kept under any name, or refused. -/
theorem createAnswer_of_kept (h : Kept P db) {r : CreateRequest} (supply : Supply)
    (hwritable : r.dsl.shown.length < 10 ^ Decimal.maxIntDigits)
    (hgiven : ∀ d : Deposit, d.name = r.name → d.dsl = r.dsl → P c.store.kind d) :
    (c.createAnswer r db supply).1.status < 500 ∧ Kept P (c.createAnswer r db supply).2.1 := by
  rw [createAnswer]
  split
  · exact ⟨(by decide : 400 < 500), h⟩
  · next size hcheck =>
    obtain ⟨⟨id, time⟩, supply'⟩ := supply.next
    obtain ⟨after, hkeep, hafter⟩ :=
      Store.exists_keep (h.of_collection c) id ⟨id, r.name, r.dsl, time.text, size⟩
    have hsound : Deposit.Sound c.store.kind ⟨id, r.name, r.dsl, time.text, size⟩ := {
      measured := Store.check_iff.1 hcheck
      countable := (Store.size_le_of_check hcheck).trans_lt hwritable }
    have hkept : Kept P after := by cases c <;> exact hafter hsound (hgiven _ rfl rfl)
    change c.store.keep id (.ofTexts id r.name c.store.kind.name r.dsl time.text size) db = _ at hkeep
    dsimp only
    rw [hkeep]
    exact ⟨(by decide : 200 < 500), hkept⟩

/-- The answer that a whole text is kept can be sent, and so can a refusal of one. -/
theorem isSendable_createAnswer (h : Kept P db) {r : CreateRequest} (hname : r.name.isWhole = true)
    (hdsl : r.dsl.isWhole = true) (supply : Supply) :
    (c.createAnswer r db supply).1.isSendable = true := by
  rw [createAnswer]
  split
  · rw [AnyText.marks_of_isWhole hdsl, AnyText.unmark_nil]
    rfl
  · next size hcheck =>
    obtain ⟨⟨id, time⟩, supply'⟩ := supply.next
    obtain ⟨after, hkeep, -⟩ :=
      Store.exists_keep (h.of_collection c) id ⟨id, r.name, r.dsl, time.text, size⟩
    change c.store.keep id (.ofTexts id r.name c.store.kind.name r.dsl time.text size) db = _ at hkeep
    dsimp only
    rw [hkeep]
    refine Response.isSendable_ok (Json.isStrict_object.2 ?_)
    refine List.forall_mem_append.2 ⟨?_, c.isStrict_createdMembers _ _⟩
    simp only [List.forall_mem_cons]
    exact ⟨rfl, Json.isStrict_ofText.2 hname, List.forall_mem_nil _⟩

end Collection

end Api

end Earley
