import Earley.Proofs.Forest.Sentence

namespace Earley

open Earley.Tree

variable {g : Grammar} {lex : Lexicon} {tokens : List String}

namespace Tree.Derivation

/-- An inner node carries no word and expands its symbol, by a rule, to symbols that lie side by side
over its tokens. -/
theorem of_inner {t : Tree} (h : Derivation g lex tokens t) (hinner : t.children ≠ []) :
    t.word = none ∧ (∃ rule ∈ g.rules, rule.lhs = t.symbol ∧ rule.rhs = t.children.map symbol) ∧
      Adjoining t.span.1 t.children t.span.2 := by
  cases h with
  | word _ _ _ => exact absurd rfl hinner
  | rule hrule hrhs hspan _ => exact ⟨rfl, ⟨_, hrule, rfl, hrhs.symm⟩, hspan⟩

/-- A leaf carries the token that it spans, and a reading of it that is tagged with its symbol. -/
theorem of_leaf {t : Tree} (h : Derivation g lex tokens t) (hleaf : t.children = []) :
    t.symbol.isTag = true ∧ ∃ (i : Nat) (w : String) (r : Reading), tokens[i]? = some w ∧
      t.span = ((i : Int), (i : Int) + 1) ∧ t.word = some w ∧ t.reading = some r ∧ r ∈ lex.lookup w ∧
        r.pos = t.symbol := by
  cases h with
  | word hword hr htag => exact ⟨htag, _, _, _, hword, rfl, rfl, rfl, hr, rfl⟩
  | rule hrule hrhs _ _ => exact absurd hleaf (children_ne_nil hrule hrhs)

end Tree.Derivation

namespace Parser

/-- Every tree of an answer is a derivation of the sentence from the first symbol: each inner node is
the expansion of a rule, each leaf a reading of the token that it spans, and the leaves carry the
tokens from the first to the last. -/
theorem parse_sound (p : Parser) (tokens : List String) :
    ∃ o, p.parse tokens = .ok o ∧ ∀ tree ∈ o.trees,
      tree.sentence = tokens ∧ tree.root.symbol = Symbol.start ∧
      tree.root.span = (0, (tokens.length : Int)) ∧
      (∀ node ∈ tree.root.walk, node.children ≠ [] →
        node.word = none ∧
        (∃ rule ∈ p.grammar.rules, rule.lhs = node.symbol ∧ rule.rhs = node.children.map symbol) ∧
        Adjoining node.span.1 node.children node.span.2) ∧
      (∀ node ∈ tree.root.walk, node.children = [] →
        node.symbol.isTag = true ∧ ∃ (i : Nat) (w : String) (r : Reading), tokens[i]? = some w ∧
          node.span = ((i : Int), (i : Int) + 1) ∧ node.word = some w ∧ node.reading = some r ∧
          r ∈ p.lexicon.lookup w ∧ r.pos = node.symbol) ∧
      tree.root.leaves.map Tree.word = tokens.map some := by
  obtain ⟨o, hparse, htrees⟩ := p.exists_parse tokens
  refine ⟨o, hparse, fun tree htree => ?_⟩
  rw [htrees] at htree
  obtain ⟨key, hoffer⟩ := mem_trees htree
  obtain ⟨hderivation, hsymbol, hspan, _, hsentence, _⟩ := Forest.offers_sound hoffer
  refine ⟨hsentence, hsymbol, hspan, fun node hnode => (hderivation.of_mem_walk node hnode).of_inner,
    fun node hnode => (hderivation.of_mem_walk node hnode).of_leaf, ?_⟩
  have hspan' : tree.root.span = (((0 : Nat) : Int), (tokens.length : Int)) := hspan
  simpa using hderivation.leaves_word hspan'

end Parser

end Earley
