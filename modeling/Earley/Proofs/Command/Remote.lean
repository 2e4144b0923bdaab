import Earley.Command.Report
import Earley.Proofs.Api.Status
import Earley.Proofs.Api.Told
import Earley.Proofs.Command.Arguments
import Earley.Proofs.Decimal.Integer
import Earley.Proofs.Parse.Soundness

namespace Earley

open Earley.Api (Address ParseRequest Request Response Service)

/-- The options name a grammar and a lexicon that are always there, and bound the trees as the service
allows it. -/
structure ParseOptions.Builtin (o : ParseOptions) : Prop where
  grammarFile : o.grammarFile = none
  lexiconFile : o.lexiconFile = none
  grammar : ∃ name g, o.grammar = some name ∧ English.grammar? name = some g
  lexicon : ∃ name lex, o.lexicon = some name ∧ English.lexicon? name = some lex
  limit : ∃ n : Int, o.limit = some n ∧ 1 ≤ n ∧ n ≤ Forest.defaultLimit

namespace Command.Choice

/-- The name is one that is always there, or the number is one that the service allows; no file is
named. -/
def Builtin : Choice → Prop
  | .grammar name => ∃ g, English.grammar? name = some g
  | .lexicon name => ∃ lex, English.lexicon? name = some lex
  | .grammarFile _ | .lexiconFile _ => False
  | .limit text number =>
    Decimal.readInt text = .ok number ∧ 1 ≤ number ∧ number ≤ Forest.defaultLimit
  | .remote | .json => True

/-- An option that names what is built in can be told from the words of a sentence. -/
theorem Builtin.clear {c : Choice} (h : c.Builtin) : c.Clear := by
  have hgrammars : ∀ entry ∈ English.grammars, entry.1.toList.head? ≠ some '-' := by
    simp [English.grammars]
  have hlexicons : ∀ entry ∈ English.lexicons, entry.1.toList.head? ≠ some '-' := by
    simp [English.lexicons]
  cases c with
  | grammar name =>
    obtain ⟨g, hg⟩ := h
    have hname := hgrammars (name, g) (English.mem_of_find? hg)
    exact ⟨by simpa [given?] using hname, by simp⟩
  | lexicon name =>
    obtain ⟨lex, hlex⟩ := h
    have hname := hlexicons (name, lex) (English.mem_of_find? hlex)
    exact ⟨by simpa [given?] using hname, by simp⟩
  | grammarFile | lexiconFile => exact h.elim
  | limit text number =>
    obtain ⟨hread, hpos, -⟩ := h
    refine ⟨?_, ?_⟩
    · -- A text that begins as options do is read as no positive number, if at all.
      intro t ht hminus
      obtain rfl := Option.some.inj ht
      exact absurd (Decimal.readInt_nonpos hminus hread) (by omega)
    · intro t n heq
      obtain ⟨rfl, rfl⟩ := Choice.limit.inj heq
      exact hread
  | remote | json => exact ⟨by simp [given?], by simp⟩

/-- Options that name what is built in stay such under one more option of that kind. -/
theorem Builtin.apply {c : Choice} (h : c.Builtin) {o : ParseOptions} (ho : o.Builtin) :
    (c.apply o).Builtin := by
  cases c with
  | grammar name =>
    obtain ⟨g, hg⟩ := h
    exact { ho with grammar := ⟨name, g, rfl, hg⟩ }
  | lexicon name =>
    obtain ⟨lex, hlex⟩ := h
    exact { ho with lexicon := ⟨name, lex, rfl, hlex⟩ }
  | grammarFile | lexiconFile => exact h.elim
  | limit text number => exact { ho with limit := ⟨number, rfl, h.2⟩ }
  | remote | json => exact { ho with }

private theorem builtin_applyAll {cs : List Choice} (h : ∀ c ∈ cs, c.Builtin) {o : ParseOptions}
    (ho : o.Builtin) : (applyAll cs o).Builtin := by
  induction cs generalizing o with
  | nil => exact ho
  | cons c cs ih =>
    obtain ⟨hc, hcs⟩ := List.forall_mem_cons.1 h
    exact ih hcs (hc.apply ho)

/-- Without the switch for the service, the other options do what they did. -/
theorem applyAll_filter_remote (cs : List Choice) (o : ParseOptions) (remote : Bool) :
    applyAll (cs.filter (· ≠ .remote)) { o with remote } = { applyAll cs o with remote } := by
  induction cs generalizing o with
  | nil => rfl
  | cons c cs ih =>
    have happly : applyAll (c :: cs) o = applyAll cs (c.apply o) := rfl
    rw [happly, ← ih]
    by_cases hremote : c = .remote
    · subst hremote
      rw [List.filter_cons_of_neg (by simp)]
      rfl
    · rw [List.filter_cons_of_pos (by simpa using hremote)]
      cases c with
      | remote => exact absurd rfl hremote
      | grammar | lexicon | grammarFile | lexiconFile | limit | json => rfl

end Command.Choice

private theorem Lexicon.mem_readings_of_mem_lookup {lex : Lexicon} {w : String} {r : Reading}
    (h : r ∈ lex.lookup w) : r ∈ lex.readings := by
  rw [lookup] at h
  split at h
  · next headword hfind =>
    exact List.mem_flatMap.2 ⟨headword, List.mem_of_find?_eq_some hfind, h⟩
  · cases h

/-- No built-in lexicon has a feature whose name is for inner use. -/
theorem English.isTold {name : String} {lex : Lexicon} (h : English.lexicon? name = some lex) :
    ∀ r ∈ lex.readings, r.IsTold := by
  have hbuilt : ∀ entry ∈ English.lexicons, ∀ r ∈ entry.2.readings, r.IsTold := by decide +kernel
  exact hbuilt (name, lex) (English.mem_of_find? h)

private theorem Parser.lexicon_of_withLimit {g : Grammar} {lex : Lexicon} {n : Int} {p : Parser}
    (h : Parser.withLimit g lex n = .ok p) : p.lexicon = lex := by
  rw [Parser.withLimit] at h
  split at h
  · cases h
    rfl
  · cases h

/-- The words of an answer have readings of the lexicon. -/
theorem Parser.isTold {p : Parser} (h : ∀ r ∈ p.lexicon.readings, r.IsTold) {tokens : List String}
    {o : Outcome} (hparse : p.parse tokens = .ok o) : o.IsTold := by
  obtain ⟨o', hparse', htrees⟩ := p.exists_parse tokens
  obtain rfl := Except.ok.inj (hparse'.symm.trans hparse)
  intro tree htree node hnode hword r hr
  rw [htrees] at htree
  have hderivation := (derivation_of_mem htree).1.of_mem_walk node hnode
  by_cases hleaf : node.children = []
  · obtain ⟨_, _, w, found, _, _, _, hreading, hfound, _⟩ := hderivation.of_leaf hleaf
    obtain rfl := Option.some.inj (hreading.symm.trans hr)
    exact h _ (Lexicon.mem_readings_of_mem_lookup hfound)
  · rw [(hderivation.of_inner hleaf).1] at hword
    cases hword

namespace Client

/-- The address of the call that parses. -/
def parseAddress : Address where
  path := "/api/parse".toList
  scheme := "http".toList
  place := some { host := "localhost".toList, number := some 8000 }

/-- The request of the call that parses. -/
def parseRequest (body : Json) : Request where
  method := "POST"
  address := parseAddress
  body := some (.ofJson body)

/-- The address is read from its text, its host needs nothing more to be checked, and the service sees
the path and the method as they stand. -/
theorem parseAddress_read : Address.ofText? (host ++ "/api/parse") = .ok parseAddress ∧
    Host.checkSigned ((parseAddress.place.map Api.Authority.host).getD []) = .ok () ∧
    parseAddress.hostPath = "/api/parse".toList ∧
    String.ofList ("POST".toList.flatMap Request.capitals) = "POST" := by
  decide +kernel

private theorem request?_parse {body : Json} (h : body.isStrict = true) :
    (Call.parse body).request? = .ok (parseRequest body) := by
  obtain ⟨haddress, hhost, -⟩ := parseAddress_read
  have hheaders : Request.foreignHeader? [] = none := rfl
  rw [Call.request?, Call.target, Call.method, Call.body]
  unfold Request.ofParts?
  rw [haddress]
  dsimp only [Except.mapError, bind, Except.bind]
  rw [hheaders]
  dsimp only
  rw [if_pos h, hhost]
  rfl

private theorem verb_parseRequest (body : Json) : (parseRequest body).verb = "POST" :=
  parseAddress_read.2.2.2

private theorem path_parseRequest (body : Json) : (parseRequest body).path = "/api/parse".toList :=
  parseAddress_read.2.2.1

private theorem readTexts_strings (name : String) (index : Nat) (texts : List String) :
    Api.readTexts name index (texts.map Json.string) = ([], texts.map .whole) := by
  induction texts generalizing index with
  | nil => rfl
  | cons text rest ih => rw [List.map_cons, Api.readTexts, ih]; rfl

/-- What a call to parse a sentence carries. -/
def sentenceMembers (tokens : List String) (grammar lexicon : String) (limit : Int) :
    List (String × Json) :=
  [("tokens", .strings tokens), ("grammar", .string grammar), ("lexicon", .string lexicon),
    ("max_trees", .int limit)]

variable {tokens : List String} {grammar lexicon : String} {limit : Int}

private theorem isStrict_sentenceMembers :
    (Json.object (sentenceMembers tokens grammar lexicon limit)).isStrict = true := by
  refine Json.isStrict_object.2 ?_
  simp only [sentenceMembers, List.forall_mem_cons]
  exact ⟨Json.isStrict_strings tokens, rfl, rfl, rfl, List.forall_mem_nil _⟩

/-- The service reads what was asked for. -/
theorem withBody_parseRequest (tokens : List String) (hpos : 1 ≤ limit)
    (hle : limit ≤ Forest.defaultLimit) :
    Api.withBody (parseRequest (.object (sentenceMembers tokens grammar lexicon limit)))
        ParseRequest.ofJson =
      .ok (0, ⟨some (tokens.map .whole), none, grammar, lexicon, limit.toNat⟩) := by
  have htokens : Api.optionalTexts (.object (sentenceMembers tokens grammar lexicon limit)) "tokens" =
      .ok (some (tokens.map .whole)) := by
    have hmember : (Json.object (sentenceMembers tokens grammar lexicon limit)).get? "tokens" =
        some (.array (tokens.map .string)) := rfl
    rw [Api.optionalTexts, hmember]
    dsimp only
    rw [readTexts_strings]
  have hlimit : Api.treeLimit (.object (sentenceMembers tokens grammar lexicon limit)) "max_trees" =
      .ok limit.toNat := by
    have hmember : (Json.object (sentenceMembers tokens grammar lexicon limit)).get? "max_trees" =
        some (.int limit) := rfl
    rw [Api.treeLimit, hmember]
    dsimp only [Api.readInteger]
    rw [if_neg (by omega), if_neg (by omega)]
  have hread : ParseRequest.ofJson (.object (sentenceMembers tokens grammar lexicon limit)) =
      .ok ⟨some (tokens.map .whole), none, grammar, lexicon, limit.toNat⟩ := by
    rw [ParseRequest.ofJson, htokens, hlimit]
    rfl
  have hnumber : Api.databaseNumber
      (parseRequest (.object (sentenceMembers tokens grammar lexicon limit))) = .ok 0 := rfl
  have hgiven : (parseRequest (.object (sentenceMembers tokens grammar lexicon limit))).given =
      .ok (.value (.object (sentenceMembers tokens grammar lexicon limit))) := rfl
  have hobject : (Api.Given.value (.object (sentenceMembers tokens grammar lexicon limit))).object =
      .ok (.object (sentenceMembers tokens grammar lexicon limit)) := rfl
  rw [Api.withBody, hgiven]
  dsimp only
  rw [hnumber, hobject, Except.bind, hread]

private theorem send_of_request? {call : Call} {request : Request} (h : call.request? = .ok request)
    (s : Service) :
    (send call s).1 = ofResponse call request.address (Api.serve request s).1 := by
  unfold send
  rw [h]

/-- Whatever the service keeps, it tells all that a parser finds. -/
theorem send_sentence (tokens : List String) {g : Grammar} {lex : Lexicon}
    (hgrammar : English.grammar? grammar = some g) (hlexicon : English.lexicon? lexicon = some lex)
    (hpos : 1 ≤ limit) (hle : limit ≤ Forest.defaultLimit) (s : Service) :
    ∃ p o, Parser.withLimit g lex limit = .ok p ∧ p.parse tokens = .ok o ∧
      (send (.sentence tokens (some grammar) (some lexicon) (some limit)) s).1 = .ok o.toJson := by
  have hresolved : Api.resolveGrammar grammar (s.database 0) = .ok (some g) := by
    rw [Api.resolveGrammar, hgrammar]
  have hresolved' : Api.resolveLexicon lexicon (s.database 0) = .ok (some ⟨lex, []⟩) := by
    rw [Api.resolveLexicon, hlexicon]
  have hnames : ParseRequest.Names ⟨some (tokens.map .whole), none, grammar, lexicon, limit.toNat⟩
      (s.database 0) g ⟨lex, []⟩ tokens :=
    ⟨rfl, ⟨grammar, rfl, hresolved⟩, lexicon, rfl, hresolved'⟩
  obtain ⟨p, o, hparser, hparse, hstatus, hbody⟩ := Api.serve_parse (s := s) (verb_parseRequest _)
    (path_parseRequest _) (withBody_parseRequest tokens hpos hle) hnames (English.finiteWeights hgrammar)
  have hnumber : (limit.toNat : Int) = limit := Int.toNat_of_nonneg (by omega)
  rw [hnumber] at hparser
  have hsent : Call.sentence tokens (some grammar) (some lexicon) (some limit) =
      .parse (.object (sentenceMembers tokens grammar lexicon limit)) := rfl
  -- Of kept sources this need not hold: their features may have names that are left out.
  have htold : o.IsTold := by
    refine Parser.isTold (fun r hr => English.isTold hlexicon r ?_) hparse
    rwa [Parser.lexicon_of_withLimit hparser] at hr
  refine ⟨p, o, hparser, hparse, ?_⟩
  rw [hsent, send_of_request? (request?_parse isStrict_sentenceMembers), ofResponse, hstatus, hbody,
    o.keepMembers_toJson_iff.2 htold]
  rfl

end Client

namespace Command

/-- Both ways give the answer of one parser. -/
theorem exists_parse_here_there (files : Files) (s : Service) {o : ParseOptions} (h : o.Builtin)
    (tokens : List String) : ∃ outcome : Outcome,
      parseHere files o tokens = .ok outcome.toJson ∧ (parseThere o tokens s).1 = .ok outcome.toJson := by
  obtain ⟨grammar, g, hname, hgrammar⟩ := h.grammar
  obtain ⟨lexicon, lex, hname', hlexicon⟩ := h.lexicon
  obtain ⟨limit, hlimit, hpos, hle⟩ := h.limit
  obtain ⟨p, outcome, hparser, hparse, hsend⟩ :=
    Client.send_sentence tokens hgrammar hlexicon hpos hle s
  have hgrammar' : localGrammar files o = .ok g := by
    rw [localGrammar, h.grammarFile, hname]
    dsimp only
    rw [hgrammar]
  have hlexicon' : localLexicon files o = .ok lex := by
    rw [localLexicon, h.lexiconFile, hname']
    dsimp only
    rw [hlexicon]
  have hparser' : localParser o g lex = .ok p := by
    rw [localParser, hlimit]
    dsimp only
    rw [hparser]
    rfl
  refine ⟨outcome, ?_, ?_⟩
  · rw [parseHere, hgrammar', hlexicon']
    simp only [bind, Except.bind]
    rw [hparser']
    dsimp only
    rw [hparse]
    rfl
  · rw [parseThere, hname, hname', hlimit]
    dsimp only
    rw [hsend]
    rfl

/-- The report does not depend on where the sentence was parsed. -/
theorem exists_runParse (files : Files) (s : Service) {o : ParseOptions} (h : o.Builtin) :
    ∃ outcome : Outcome, ∀ remote : Bool,
      (runParse files { o with remote } s).1 = answerReport o (.ok outcome.toJson) := by
  obtain ⟨outcome, hhere, hthere⟩ :=
    exists_parse_here_there files s h (words (" ".intercalate o.sentence))
  refine ⟨outcome, fun remote => ?_⟩
  rw [runParse]
  cases remote with
  | true =>
    rw [if_pos rfl, ← hthere]
    rfl
  | false =>
    rw [if_neg Bool.false_ne_true, ← hhere]
    rfl

section

variable {before after : List Choice} {line : List String}

private theorem runTexts_parseLine (files : Files) (s : Service) (hclear : ∀ c ∈ before ++ after, c.Clear)
    (hne : line ≠ []) (hline : ∀ word ∈ line, word.toList.head? ≠ some '-') :
    runTexts files s (parseLine before line after) =
      runParse files (Choice.applyAll (before ++ after) { sentence := line }) s := by
  rw [runTexts, ofTexts_parseLine hclear hne hline]
  rfl

/-- With a grammar and a lexicon that are always there, the switch for the service changes neither what
is printed nor how the command ends, whatever the service keeps: either way it is the report of an
answer. -/
theorem runTexts_remote (files : Files) (s : Service)
    (hbuiltin : ∀ c ∈ before ++ after, c.Builtin) (hne : line ≠ [])
    (hline : ∀ word ∈ line, word.toList.head? ≠ some '-') :
    (runTexts files s (parseLine before line after)).1 =
        (runTexts files s
          (parseLine (before.filter (· ≠ .remote)) line (after.filter (· ≠ .remote)))).1 ∧
      ∃ outcome : Outcome, (runTexts files s (parseLine before line after)).1 =
        answerReport (Choice.applyAll (before ++ after) { sentence := line })
          (.ok outcome.toJson) := by
  have hstart : ({ sentence := line } : ParseOptions).Builtin := {
    grammarFile := rfl
    lexiconFile := rfl
    grammar := ⟨Api.defaultName, _, rfl, rfl⟩
    lexicon := ⟨Api.defaultName, _, rfl, rfl⟩
    limit := ⟨Forest.defaultLimit, rfl, by decide, le_refl _⟩ }
  obtain ⟨outcome, hreport⟩ :=
    exists_runParse files s (Choice.builtin_applyAll hbuiltin hstart)
  have hclear : ∀ c ∈ before ++ after, c.Clear := by
    intro c hc
    exact (hbuiltin c hc).clear
  have hclear' : ∀ c ∈ before.filter (· ≠ .remote) ++ after.filter (· ≠ .remote), c.Clear := by
    intro c hc
    rw [← List.filter_append] at hc
    exact hclear c (List.mem_of_mem_filter hc)
  have hthere : (runTexts files s (parseLine before line after)).1 =
      answerReport (Choice.applyAll (before ++ after) { sentence := line }) (.ok outcome.toJson) := by
    rw [runTexts_parseLine files s hclear hne hline]
    exact hreport _
  have hhere : (runTexts files s
      (parseLine (before.filter (· ≠ .remote)) line (after.filter (· ≠ .remote)))).1 =
        answerReport (Choice.applyAll (before ++ after) { sentence := line })
          (.ok outcome.toJson) := by
    have hoptions := Choice.applyAll_filter_remote (before ++ after) { sentence := line } false
    rw [runTexts_parseLine files s hclear' hne hline, ← List.filter_append, hoptions]
    exact hreport false
  exact ⟨hthere.trans hhere.symm, outcome, hthere⟩

/-- A line with options before and behind its sentence, once with the switch for the service and once
without. -/
theorem runTexts_remote_limited :
    (∀ c ∈ [Choice.remote, .grammar "english"] ++ [.limit "5" 5, .json], c.Builtin) ∧
    ["the", "dog", "ran"] ≠ [] ∧
    (∀ word ∈ ["the", "dog", "ran"], word.toList.head? ≠ some '-') ∧
    (runTexts (Files.ofFound []) {}
        ["parse", "--remote", "--grammar", "english", "the", "dog", "ran", "--max-trees", "5", "--json"]).1 =
      (runTexts (Files.ofFound []) {}
        ["parse", "--grammar", "english", "the", "dog", "ran", "--max-trees", "5", "--json"]).1 := by
  have hgrammar : (Choice.grammar "english").Builtin := ⟨English.grammar, rfl⟩
  have hlimit : (Choice.limit "5" 5).Builtin := ⟨by decide +kernel, by decide, by decide⟩
  have hbuiltin : ∀ c ∈ [Choice.remote, .grammar "english"] ++ [.limit "5" 5, .json], c.Builtin := by
    simp only [List.cons_append, List.nil_append, List.forall_mem_cons]
    exact ⟨trivial, hgrammar, hlimit, trivial, List.forall_mem_nil _⟩
  have hne : ["the", "dog", "ran"] ≠ [] := List.cons_ne_nil _ _
  have hline : ∀ word ∈ ["the", "dog", "ran"], word.toList.head? ≠ some '-' := by decide
  exact ⟨hbuiltin, hne, hline, (runTexts_remote (Files.ofFound []) {} hbuiltin hne hline).1⟩

end

end Command

end Earley
