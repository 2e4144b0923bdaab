import Earley.Proofs.Forest.Alike
import Earley.Proofs.Parse.Completeness

namespace Earley

open Earley.Tree

namespace Parser

variable {g : Grammar} {lex : Lexicon} {limit : Int}

/-- A bound that admits a tree makes a parser, and the parser answers every sentence. -/
theorem exists_withLimit (hlimit : 1 ≤ limit)
    (hwords : ∀ rule ∈ g.rules, ∀ s ∈ rule.rhs, Text.isWord s.toList = true) (tokens : List String) :
    ∃ p o, withLimit g lex limit = .ok p ∧ p.parse tokens = .ok o ∧
      o.trees = ((Forest.offers g lex tokens none).take limit.toNat).map Prod.fst := by
  have hpositive : 0 < limit.toNat := by omega
  obtain ⟨o, hparse, htrees⟩ := exists_parse ⟨g, lex, limit.toNat, hpositive⟩ tokens
  refine ⟨_, o, dif_pos hpositive, hparse, ?_⟩
  rw [htrees, trees_eq _ hwords]

/-- Under a smaller bound an answer lists the first trees of the answer under a larger one. -/
theorem parse_take (g : Grammar) (lex : Lexicon)
    (hwords : ∀ rule ∈ g.rules, ∀ s ∈ rule.rhs, Text.isWord s.toList = true) {small large : Int}
    (hsmall : 1 ≤ small) (hle : small ≤ large) (tokens : List String) :
    ∃ p q o o', withLimit g lex small = .ok p ∧ withLimit g lex large = .ok q ∧
      p.parse tokens = .ok o ∧ q.parse tokens = .ok o' ∧ o.trees = o'.trees.take small.toNat := by
  obtain ⟨p, o, hp, hparse, htrees⟩ := exists_withLimit hsmall hwords tokens
  obtain ⟨q, o', hq, hparse', htrees'⟩ := exists_withLimit (hsmall.trans hle) hwords tokens
  refine ⟨p, q, o, o', hp, hq, hparse, hparse', ?_⟩
  rw [htrees, htrees', ← List.map_take, List.take_take, Nat.min_eq_left (by omega)]

/-- Of three words there are two bracketings, the first of which is found with room for one. -/
theorem parse_take_bracketing : (1 : Int) ≤ 1 ∧ (1 : Int) ≤ 3 ∧
    ∃ p q o o', withLimit bracketing.grammar bracketing.lexicon 1 = .ok p ∧
      withLimit bracketing.grammar bracketing.lexicon 3 = .ok q ∧ p.parse ["x", "x", "x"] = .ok o ∧
      q.parse ["x", "x", "x"] = .ok o' ∧ o.trees = o'.trees.take 1 :=
  ⟨by decide, by decide,
    parse_take bracketing.grammar bracketing.lexicon (by decide) (by decide) (by decide) _⟩

/-- Rules that are given again, weights, and what a word's readings say beside their parts of speech
decide nothing: the trees have the same symbols, children and spans in the same order. -/
theorem parse_alike {g g' : Grammar} {lex lex' : Lexicon} {tokens tokens' : List String}
    (hwords : ∀ rule ∈ g.rules, ∀ s ∈ rule.rhs, Text.isWord s.toList = true)
    (hwords' : ∀ rule ∈ g'.rules, ∀ s ∈ rule.rhs, Text.isWord s.toList = true)
    (hrules : g.expansions = g'.expansions) (htags : lex.TagAlike lex' tokens tokens')
    (hlimit : 1 ≤ limit) :
    ∃ p p' o o', withLimit g lex limit = .ok p ∧ withLimit g' lex' limit = .ok p' ∧
      p.parse tokens = .ok o ∧ p'.parse tokens' = .ok o' ∧ o.trees.length = o'.trees.length ∧
      o.trees.map (·.root.shape) = o'.trees.map (·.root.shape) := by
  obtain ⟨p, o, hp, hparse, htrees⟩ := exists_withLimit hlimit hwords tokens
  obtain ⟨p', o', hp', hparse', htrees'⟩ := exists_withLimit hlimit hwords' tokens'
  have hoffers := Forest.offers_alike (fun rule hrule s hs => spaceless_of_isWord (hwords rule hrule s hs))
    (fun rule hrule s hs => spaceless_of_isWord (hwords' rule hrule s hs)) hrules htags
  have hshapes : o.trees.map (·.root.shape) = o'.trees.map (·.root.shape) := by
    rw [htrees, htrees', List.map_map, List.map_map, List.map_take, List.map_take]
    exact congrArg (List.take limit.toNat) hoffers
  exact ⟨p, p', o, o', hp, hp', hparse, hparse', by simpa using congrArg List.length hshapes, hshapes⟩

/-- The rules of `bracketing` with other weights, one of them twice. -/
def rebracketing : Grammar where
  rules := [⟨"S", ["S", "S"], .finite false ⟨1022 * Binary64.blockSize, by decide⟩⟩,
    ⟨"S", ["N"], .finite false ⟨1024 * Binary64.blockSize, by decide⟩⟩,
    ⟨"S", ["S", "S"], Binary64.one⟩]
  proper := by
    unfold Rule.IsProper
    decide

/-- A word that is a noun twice, and a verb too. -/
def rereading : Lexicon :=
  ((Lexicon.empty.add "y" "V").add "y" "N").add "y" "N" [("Num", .text "pl")] (some "yy")

/-- The same rules with other weights, and other words with the same tags. -/
theorem parse_alike_bracketing :
    bracketing.grammar.expansions = rebracketing.expansions ∧
    (bracketing.lexicon.add "x" "V").TagAlike rereading ["x", "x", "x"] ["y", "Y", "y"] ∧
    ∃ p p' o o', withLimit bracketing.grammar (bracketing.lexicon.add "x" "V") 2 = .ok p ∧
      withLimit rebracketing rereading 2 = .ok p' ∧ p.parse ["x", "x", "x"] = .ok o ∧
      p'.parse ["y", "Y", "y"] = .ok o' ∧ o.trees.length = o'.trees.length ∧
      o.trees.map (·.root.shape) = o'.trees.map (·.root.shape) := by
  have hrules : bracketing.grammar.expansions = rebracketing.expansions := by decide
  have hnoun : ((bracketing.lexicon.add "x" "V").lookup "x").map Reading.pos = ["N", "V"] := by decide
  have hsame (w : String) (hw : (rereading.lookup w).map Reading.pos = ["V", "N", "N"]) (tag : Symbol) :
      tag ∈ ((bracketing.lexicon.add "x" "V").lookup "x").map Reading.pos ↔
        tag ∈ (rereading.lookup w).map Reading.pos := by
    rw [hnoun, hw]
    simp [or_comm]
  have htags : (bracketing.lexicon.add "x" "V").TagAlike rereading ["x", "x", "x"] ["y", "Y", "y"] :=
    .cons (hsame "y" (by decide)) (.cons (hsame "Y" (by decide)) (.cons (hsame "y" (by decide)) .nil))
  exact ⟨hrules, htags, parse_alike (by decide) (by decide) hrules htags (by decide)⟩

end Parser

end Earley
