import Earley.English
import Earley.Proofs.Parse.Recognition

namespace Earley.English

open Grammar

variable {lex : Lexicon} {tokens : List String} {i j k : Nat}

/-- The left side of a rule in the table covers what its right side covers. -/
theorem covers_row (lhs : Symbol) (rhs : List Symbol) (weight : Nat)
    (hrow : (lhs, rhs, weight) ∈ ruleTable) (h : grammar.Covers lex tokens (rhs.map .symbol) i j) :
    grammar.Covers lex tokens [.symbol lhs] i j := by
  have hrule : ⟨lhs, rhs, hundredths weight⟩ ∈ grammar.rules := List.mem_map.2 ⟨_, hrow, rfl⟩
  exact Covers.of_rule hrule h

/-- A noun is a noun phrase. -/
theorem covers_noun (h : grammar.Covers lex tokens [.symbol "N"] i j) :
    grammar.Covers lex tokens [.symbol "NP"] i j :=
  covers_row "NP" ["N"] 60 (by decide) h

/-- A noun phrase is a sentence. -/
theorem covers_exclamation (h : grammar.Covers lex tokens [.symbol "NP"] i j) :
    grammar.Covers lex tokens [.symbol "S"] i j :=
  covers_row "S" ["NP"] 50 (by decide) h

/-- A noun phrase takes a sentence as its relative clause. -/
theorem covers_clause (hphrase : grammar.Covers lex tokens [.symbol "NP"] i k)
    (hclause : grammar.Covers lex tokens [.symbol "S"] k j) :
    grammar.Covers lex tokens [.symbol "NP"] i j := by
  have hrelative : grammar.Covers lex tokens [.symbol "RC"] k j :=
    covers_row "RC" ["S"] 40 (by decide) hclause
  exact covers_row "NP" ["NP", "RC"] 70 (by decide)
    (hphrase.append hrelative)

/-- Nouns, at least one, are a noun phrase: the first noun with all the others as its clause. -/
theorem covers_nouns (hnouns : ∀ i, i < tokens.length → grammar.Covers lex tokens [.symbol "N"] i (i + 1))
    (hi : i < tokens.length) : grammar.Covers lex tokens [.symbol "NP"] i tokens.length := by
  obtain ⟨d, hd⟩ := Nat.exists_eq_add_of_lt hi
  induction d generalizing i with
  | zero =>
    rw [hd]
    exact covers_noun (hnouns i hi)
  | succ d ih =>
    have hrest := ih (i := i + 1) (by omega) (by omega)
    exact covers_clause (covers_noun (hnouns i hi)) (covers_exclamation hrest)

/-- A sentence of nouns. -/
theorem derives_nouns (htokens : tokens ≠ []) (hnouns : ∀ w ∈ tokens, lex.Tags "N" w) :
    grammar.Derives lex [.symbol Symbol.start] (tokens.map .word) := by
  have hcovers : grammar.Covers lex tokens [.symbol "NP"] 0 tokens.length :=
    covers_nouns (fun i hi => Covers.of_tag (List.getElem?_eq_getElem hi) (hnouns _ (List.getElem_mem hi)))
      (List.length_pos_iff.2 htokens)
  have hwords := (covers_exclamation hcovers).derives
  rwa [List.take_length, List.drop_zero] at hwords

/-- Whatever its letters' case, the word is a noun. -/
theorem tags_buffalo {w : String} (h : Text.lower w = "buffalo") : buffaloLexicon.Tags "N" w := by
  have hnoun : buffaloLexicon.Tags "N" "buffalo" := ⟨by decide, by decide +kernel⟩
  have hlower : Text.lower "buffalo" = "buffalo" := by decide +kernel
  have hlookup : buffaloLexicon.lookup w = buffaloLexicon.lookup "buffalo" := by
    rw [Lexicon.lookup, Lexicon.lookup, h, hlower]
  rwa [Lexicon.Tags, hlookup]

/-- A row of that one word, however long, is a sentence: under any bound that admits a tree there is
one, and every tree is a sentence over the whole row. -/
theorem parse_buffalo {limit : Int} (hlimit : 1 ≤ limit) (htokens : tokens ≠ [])
    (hbuffalo : ∀ w ∈ tokens, Text.lower w = "buffalo") :
    ∃ p o, Parser.withLimit grammar buffaloLexicon limit = .ok p ∧ p.parse tokens = .ok o ∧
      o.trees ≠ [] ∧
      (∀ tree ∈ o.trees, tree.root.symbol = "S" ∧ tree.root.span = (0, (tokens.length : Int))) ∧
      o.errors = none := by
  have hpositive : 0 < limit.toNat := by omega
  let p : Parser := ⟨grammar, buffaloLexicon, limit.toNat, hpositive⟩
  have htrees : p.trees tokens ≠ [] :=
    (p.trees_ne_nil_iff tokens).2 (derives_nouns htokens fun w hw => tags_buffalo (hbuffalo w hw))
  refine ⟨p, _, dif_pos hpositive, p.parse_eq htokens, htrees, fun tree htree => ?_, if_neg htrees⟩
  exact (Parser.derivation_of_mem htree).2

/-- Three words in different cases, with room for one tree. -/
theorem parse_buffalo_cases : (1 : Int) ≤ 1 ∧ ["Buffalo", "BUFFALO", "buffalo"] ≠ [] ∧
    (∀ w ∈ ["Buffalo", "BUFFALO", "buffalo"], Text.lower w = "buffalo") ∧
    ∃ p o, Parser.withLimit grammar buffaloLexicon 1 = .ok p ∧
      p.parse ["Buffalo", "BUFFALO", "buffalo"] = .ok o ∧ o.trees ≠ [] ∧
      (∀ tree ∈ o.trees, tree.root.symbol = "S" ∧ tree.root.span = (0, 3)) ∧ o.errors = none := by
  have hlower : ∀ w ∈ ["Buffalo", "BUFFALO", "buffalo"], Text.lower w = "buffalo" := by decide +kernel
  exact ⟨by decide, by decide, hlower, parse_buffalo (by decide) (by decide) hlower⟩

end Earley.English
