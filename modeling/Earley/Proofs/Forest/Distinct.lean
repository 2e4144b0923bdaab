import Earley.Proofs.Forest.Prefix
import Earley.Proofs.Forest.Sentence

namespace Earley

open Grammar Earley.Tree

namespace Forest

variable {g : Grammar} {lex : Lexicon} {tokens : List String} {limit : Option Nat}

private theorem spaceless_start : Spaceless Symbol.start := by
  unfold Spaceless Symbol.start
  decide

/-- Derivation trees of the sentence that have the same form are equal, readings apart. -/
theorem bare_eq_of_canonical (hclean : ∀ rule ∈ g.rules, ∀ s ∈ rule.rhs, Spaceless s) {t t' : Tree}
    (ht : Derivation g lex tokens t) (ht' : Derivation g lex tokens t') (hs : t.symbol = Symbol.start)
    (hs' : t'.symbol = Symbol.start) (hspan : t.span = (0, (tokens.length : Int)))
    (hspan' : t'.span = (0, (tokens.length : Int))) (hkey : t.canonical = t'.canonical) :
    t.bare = t'.bare := by
  have hspells := ht.spells hclean (hs ▸ spaceless_start) hspan
  have hspells' := ht'.spells hclean (hs' ▸ spaceless_start) hspan'
  have hwritten : t.written canonicalStyle = t'.written canonicalStyle := by
    rw [← toList_canonical, ← toList_canonical, hkey]
  exact ht.bare_eq_of_outline ht' (by rw [hspan, hspan'])
    ((hspells.written_inj hspells' canonicalStyle).1 hwritten)

/-- No two trees on offer for a sentence have one canonical form. -/
theorem nodup_map_offers (hclean : ∀ rule ∈ g.rules, ∀ s ∈ rule.rhs, Spaceless s) :
    ((offers g lex tokens limit).map Prod.snd).Nodup := by
  have hnone : ∀ x ∈ ([] : List (Nat × Item)), x.2 ∈ (Chart.build g lex tokens).column x.1 := by simp
  have hkeys (item : Item) := nodup_map_alternatives (Chart.build g lex tokens) limit [] item
  -- A form that two complete items give is given by one, from the same partial derivation.
  have hsame {item item' : Item} (hitem : item ∈ (Chart.build g lex tokens).completed Symbol.start)
      (hitem' : item' ∈ (Chart.build g lex tokens).completed Symbol.start) {p p' : Partial}
      (hp : p ∈ alternatives (Chart.build g lex tokens) limit [] item)
      (hp' : p' ∈ alternatives (Chart.build g lex tokens) limit [] item')
      (hkey : (p.close item).key = (p'.close item').key) : item = item' ∧ p = p' := by
    obtain ⟨hmem, _, hcomplete, _⟩ := mem_completed.1 hitem
    obtain ⟨hmem', _, hcomplete', _⟩ := mem_completed.1 hitem'
    obtain ⟨ht, hs, hspan, _, _, hform⟩ := offers_sound (mem_offers.2 ⟨item, hitem, p, hp, rfl⟩)
    obtain ⟨ht', hs', hspan', _, _, hform'⟩ :=
      offers_sound (mem_offers.2 ⟨item', hitem', p', hp', rfl⟩)
    have hbare := bare_eq_of_canonical hclean ht ht' hs hs' hspan hspan'
      (hform.symm.trans (hkey.trans hform'))
    obtain ⟨rfl, hpkey⟩ := eq_of_close_bare hmem hmem' hcomplete hcomplete' (row_of_mem hnone hmem hp).1
      (row_of_mem hnone hmem' hp').1 hbare
    exact ⟨rfl, List.inj_on_of_nodup_map (hkeys _) hp hp' hpkey⟩
  have hcompleted : ((Chart.build g lex tokens).completed Symbol.start).Nodup :=
    ((Chart.build_coherent g lex tokens).column_nodup _).filter _
  rw [offers, entries, List.map_flatMap, List.nodup_flatMap]
  refine ⟨fun item hitem => ?_, ?_⟩
  · rw [List.map_map, List.map_map]
    exact ((hkeys item).of_map).map_on fun p hp p' hp' hkey => (hsame hitem hitem hp hp' hkey).2
  · refine hcompleted.imp_of_mem fun {item item'} hitem hitem' hne k hk hk' => ?_
    obtain ⟨x, hx, rfl⟩ := List.mem_map.1 hk
    obtain ⟨x', hx', hkey⟩ := List.mem_map.1 hk'
    rw [List.map_map] at hx hx'
    obtain ⟨p, hp, rfl⟩ := List.mem_map.1 hx
    obtain ⟨p', hp', rfl⟩ := List.mem_map.1 hx'
    exact hne (hsame hitem hitem' hp hp' hkey.symm).1

/-- What is kept of the offers under a bound are the first of all offers. -/
theorem take_offers (hclean : ∀ rule ∈ g.rules, ∀ s ∈ rule.rhs, Spaceless s) {n : Nat} (hn : 0 < n) :
    (firstBy Prod.snd (offers g lex tokens (some n))).take n = (offers g lex tokens none).take n := by
  have hnone : ∀ x ∈ ([] : List (Nat × Item)), x.2 ∈ (Chart.build g lex tokens).column x.1 := by simp
  rw [firstBy_eq_self (nodup_map_offers hclean)]
  refine take_flatMap_congr fun item hitem => ?_
  have hfirst : alternatives (Chart.build g lex tokens) (some n) [] item = _ :=
    alternatives_eq_take hclean hn hnone (mem_completed.1 hitem).1
  rw [hfirst, List.map_take, List.map_take, List.take_take, Nat.min_self]
  rfl

end Forest

/-- Where symbols are words, an answer lists the first of all that is offered. -/
theorem Parser.trees_eq (p : Parser)
    (hwords : ∀ rule ∈ p.grammar.rules, ∀ s ∈ rule.rhs, Text.isWord s.toList = true)
    (tokens : List String) : p.trees tokens =
      ((Forest.offers p.grammar p.lexicon tokens none).take p.limit).map Prod.fst := by
  have hclean : ∀ rule ∈ p.grammar.rules, ∀ s ∈ rule.rhs, Spaceless s :=
    fun rule hrule s hs => spaceless_of_isWord (hwords rule hrule s hs)
  rw [trees, Forest.take_offers hclean p.limit_pos]

end Earley
