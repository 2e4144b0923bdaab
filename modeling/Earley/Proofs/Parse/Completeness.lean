import Earley.Proofs.Forest.Distinct
import Mathlib.Data.Set.Card

namespace Earley

open Earley.Tree

/-- The derivation trees of a sentence from the first symbol, without their readings. -/
def derivationTrees (g : Grammar) (lex : Lexicon) (tokens : List String) : Set Tree :=
  {t | ∃ t', Derivation g lex tokens t' ∧ t'.symbol = Symbol.start ∧
    t'.span = (0, (tokens.length : Int)) ∧ t'.bare = t}

/-- Those in which no node does what a node above it does. -/
def acyclicTrees (g : Grammar) (lex : Lexicon) (tokens : List String) : Set Tree :=
  {t ∈ derivationTrees g lex tokens | t.Acyclic}

variable {g : Grammar} {lex : Lexicon} {tokens : List String}

/-- The trees that are offered when nothing is bounded are the derivation trees without repetition. -/
theorem mem_acyclicTrees (hclean : ∀ rule ∈ g.rules, ∀ s ∈ rule.rhs, Spaceless s) {t : Tree} :
    t ∈ acyclicTrees g lex tokens ↔
      t ∈ (Forest.offers g lex tokens none).map fun x => x.1.root.bare := by
  rw [List.mem_map]
  constructor
  · rintro ⟨⟨t', ht, hs, hspan, rfl⟩, hacyclic⟩
    have hbound : ∀ m, (none : Option Nat) = some m → 0 < m := fun m hm => by cases hm
    obtain ⟨x, hx, hkey⟩ := Forest.exists_offer hbound ht hs hspan (acyclic_bare.1 hacyclic)
    obtain ⟨ht', hs', hspan', _, _, hkey'⟩ := Forest.offers_sound hx
    exact ⟨x, hx, Forest.bare_eq_of_canonical hclean ht' ht hs' hs hspan' hspan
      (hkey'.symm.trans (hkey rfl))⟩
  · rintro ⟨x, hx, rfl⟩
    obtain ⟨ht, hs, hspan, hacyclic, _⟩ := Forest.offers_sound hx
    exact ⟨⟨x.1.root, ht, hs, hspan, rfl⟩, acyclic_bare.2 hacyclic⟩

private theorem nodup_offered_trees (hclean : ∀ rule ∈ g.rules, ∀ s ∈ rule.rhs, Spaceless s) :
    ((Forest.offers g lex tokens none).map fun x => x.1.root.bare).Nodup := by
  refine List.Nodup.of_map canonical ?_
  have hkeys : ((Forest.offers g lex tokens none).map fun x => x.1.root.bare).map canonical =
      (Forest.offers g lex tokens none).map Prod.snd := by
    rw [List.map_map]
    refine List.map_congr_left fun x hx => ?_
    obtain ⟨_, _, _, _, _, hkey⟩ := Forest.offers_sound hx
    rw [hkey, Function.comp, canonical_bare]
  rw [hkeys]
  exact Forest.nodup_map_offers hclean

private theorem ncard_acyclicTrees (hclean : ∀ rule ∈ g.rules, ∀ s ∈ rule.rhs, Spaceless s) :
    (acyclicTrees g lex tokens).ncard = (Forest.offers g lex tokens none).length := by
  classical
  have hset : acyclicTrees g lex tokens =
      (((Forest.offers g lex tokens none).map fun x => x.1.root.bare).toFinset : Set Tree) := by
    ext t
    rw [mem_acyclicTrees hclean, Finset.mem_coe, List.mem_toFinset]
  rw [hset, Set.ncard_coe_finset, List.toFinset_card_of_nodup (nodup_offered_trees hclean),
    List.length_map]

/-- Where no symbol comes back to itself by rules with one symbol, no derivation tree repeats an
expansion. -/
theorem acyclicTrees_eq (hunit : ∀ s, ¬ Relation.TransGen g.UnitStep s s) :
    acyclicTrees g lex tokens = derivationTrees g lex tokens := by
  refine Set.Subset.antisymm (fun t ht => ht.1) ?_
  rintro t ⟨t', ht, hs, hspan, rfl⟩
  exact ⟨⟨t', ht, hs, hspan, rfl⟩, acyclic_bare.2 (ht.acyclic_of_unit hunit)⟩

/-- There are finitely many derivation trees without repetition. An answer has as many of them as
its bound admits, each once, and so all of them if there are no more; and where no symbol comes back
to itself by rules with one symbol, they are all derivation trees of the sentence. -/
theorem Parser.parse_complete (p : Parser)
    (hwords : ∀ rule ∈ p.grammar.rules, ∀ s ∈ rule.rhs, Text.isWord s.toList = true)
    (tokens : List String) :
    (acyclicTrees p.grammar p.lexicon tokens).Finite ∧
    (∃ o, p.parse tokens = .ok o ∧
      o.trees.length = min p.limit (acyclicTrees p.grammar p.lexicon tokens).ncard ∧
      (∀ tree ∈ o.trees, tree.root.bare ∈ acyclicTrees p.grammar p.lexicon tokens) ∧
      (o.trees.map fun tree => tree.root.bare).Nodup ∧
      ((acyclicTrees p.grammar p.lexicon tokens).ncard ≤ p.limit →
        ∀ t, t ∈ acyclicTrees p.grammar p.lexicon tokens ↔
          ∃ tree ∈ o.trees, tree.root.bare = t)) ∧
    ((∀ s, ¬ Relation.TransGen p.grammar.UnitStep s s) →
      acyclicTrees p.grammar p.lexicon tokens = derivationTrees p.grammar p.lexicon tokens) := by
  have hclean : ∀ rule ∈ p.grammar.rules, ∀ s ∈ rule.rhs, Spaceless s :=
    fun rule hrule s hs => spaceless_of_isWord (hwords rule hrule s hs)
  obtain ⟨o, hparse, htrees⟩ := p.exists_parse tokens
  rw [trees, Forest.take_offers hclean p.limit_pos] at htrees
  have hmem {t : Tree} : t ∈ acyclicTrees p.grammar p.lexicon tokens ↔ _ := mem_acyclicTrees hclean
  have hfinite : (acyclicTrees p.grammar p.lexicon tokens).Finite := by
    refine Set.Finite.subset (List.finite_toSet _) fun t ht => hmem.1 ht
  have hcard : (acyclicTrees p.grammar p.lexicon tokens).ncard = _ := ncard_acyclicTrees hclean
  have hroots : (o.trees.map fun tree => tree.root.bare) =
      ((Forest.offers p.grammar p.lexicon tokens none).map fun x => x.1.root.bare).take p.limit := by
    rw [htrees, List.map_map, ← List.map_take]
    rfl
  refine ⟨hfinite, ⟨o, hparse, ?_, ?_, ?_, ?_⟩, fun hunit => acyclicTrees_eq hunit⟩
  · rw [htrees, List.length_map, List.length_take, hcard]
  · intro tree htree
    refine hmem.2 (List.mem_of_mem_take (i := p.limit) ?_)
    rw [← hroots]
    exact List.mem_map.2 ⟨tree, htree, rfl⟩
  · rw [hroots]
    exact (nodup_offered_trees hclean).sublist (List.take_sublist _ _)
  · intro hle t
    rw [hmem, ← List.mem_map, hroots, List.take_of_length_le]
    rw [List.length_map, ← hcard]
    exact hle

/-- A parser for all bracketings of a row of words. -/
def bracketing : Parser where
  grammar :=
    { rules := [⟨"S", ["S", "S"], Binary64.one⟩, ⟨"S", ["N"], Binary64.one⟩]
      proper := by
        unfold Rule.IsProper
        decide }
  lexicon := Lexicon.empty.add "x" "N"
  limit := 3
  limit_pos := by decide

/-- Three words that can be put in brackets in two ways. -/
theorem parse_complete_bracketing :
    (∀ rule ∈ bracketing.grammar.rules, ∀ s ∈ rule.rhs, Text.isWord s.toList = true) ∧
    (∃ o, bracketing.parse ["x", "x", "x"] = .ok o ∧ o.trees.length =
      min 3 (acyclicTrees bracketing.grammar bracketing.lexicon ["x", "x", "x"]).ncard) := by
  have hwords : ∀ rule ∈ bracketing.grammar.rules, ∀ s ∈ rule.rhs, Text.isWord s.toList = true := by
    decide
  obtain ⟨_, ⟨o, hparse, hlength, _⟩, _⟩ := bracketing.parse_complete hwords ["x", "x", "x"]
  exact ⟨hwords, o, hparse, hlength⟩

end Earley
