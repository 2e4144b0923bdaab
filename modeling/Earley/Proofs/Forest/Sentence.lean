import Earley.Parse
import Earley.Proofs.Forest.Complete
import Earley.Proofs.Forest.Harvest

namespace Earley

open Grammar Earley.Tree

namespace Forest

variable {g : Grammar} {lex : Lexicon} {tokens : List String} {limit : Option Nat}

/-- The finished items of a symbol are those that stand in the last column, wait for nothing and begin at
the front. -/
theorem mem_completed {s : Symbol} {item : Item} :
    item ∈ (Chart.build g lex tokens).completed s ↔
      item ∈ (Chart.build g lex tokens).column tokens.length ∧ item.rule.lhs = s ∧
        item.next? = none ∧ item.origin = 0 := by
  have hlast : (Chart.build g lex tokens).columns.size - 1 = tokens.length := by
    rw [(Chart.build_coherent g lex tokens).columns_size, Chart.build_tokens, Nat.add_sub_cancel]
  rw [Chart.completed, hlast, List.mem_filter, Array.mem_toList_iff, Bool.and_eq_true,
    Bool.and_eq_true, beq_iff_eq, beq_iff_eq, and_assoc]
  refine and_congr_right fun hmem => and_congr_right fun _ => and_congr_left fun _ => ?_
  exact Item.isComplete_iff (Chart.build_sound g lex tokens _ item hmem).dot_nonneg

/-- What is offered for the first symbol. -/
def offers (g : Grammar) (lex : Lexicon) (tokens : List String) (limit : Option Nat) :
    List (Parse × String) :=
  entries (Chart.build g lex tokens) (alternatives (Chart.build g lex tokens) limit [])
    ((Chart.build g lex tokens).completed Symbol.start)

/-- What is on offer for a sentence are the closed rows of the finished items of the start symbol. -/
theorem mem_offers {x : Parse × String} : x ∈ offers g lex tokens limit ↔
    ∃ item ∈ (Chart.build g lex tokens).completed Symbol.start,
      ∃ p ∈ alternatives (Chart.build g lex tokens) limit [] item,
        x = entry tokens item.rule.weight (p.close item) := by
  simp only [offers, entries, List.mem_flatMap, List.map_map, List.mem_map, Function.comp,
    Chart.build_tokens, eq_comm]

/-- All that is offered is a derivation tree of the sentence, in which no node repeats one above. -/
theorem offers_sound {x : Parse × String} (hx : x ∈ offers g lex tokens limit) :
    Derivation g lex tokens x.1.root ∧ x.1.root.symbol = Symbol.start ∧
      x.1.root.span = (0, (tokens.length : Int)) ∧ x.1.root.Acyclic ∧ x.1.sentence = tokens ∧
        x.2 = x.1.root.canonical := by
  obtain ⟨item, hitem, p, hp, rfl⟩ := mem_offers.1 hx
  obtain ⟨hmem, hlhs, hcomplete, horigin⟩ := mem_completed.1 hitem
  have hvalid := Chart.build_sound g lex tokens _ item hmem
  have hnone : ∀ x ∈ ([] : List (Nat × Item)), x.2 ∈ (Chart.build g lex tokens).column x.1 := by simp
  obtain ⟨hrow, havoids⟩ := row_of_mem hnone hmem hp
  obtain ⟨htree, ht, hexpansion, hkey⟩ := hrow.close hvalid hcomplete
  refine ⟨ht, ?_, ?_, ?_, rfl, hkey⟩
  · rw [entry, htree, symbol_branch, hlhs]
  · rw [entry, htree, span_branch, horigin]
  · rw [above_cons_of_complete hcomplete, ← hexpansion] at havoids
    exact avoids_nil.1 (avoids_iff.2 ⟨List.not_mem_nil, havoids⟩)

/-- Every derivation tree of the sentence without repetition is offered, or another one where the
alternatives are bounded. -/
theorem exists_offer (hlimit : ∀ m, limit = some m → 0 < m) {t : Tree}
    (ht : Derivation g lex tokens t) (hs : t.symbol = Symbol.start)
    (hspan : t.span = (0, (tokens.length : Int))) (hacyclic : t.Acyclic) :
    ∃ x ∈ offers g lex tokens limit, limit = none → x.2 = t.canonical := by
  have hcategory : t.symbol.isCategory = true := by
    rw [hs]
    decide
  obtain ⟨rule, hrule, i, j, heq, hrhs, hrow, hchildren⟩ := ht.exists_rule hcategory
  have hlhs : rule.lhs = Symbol.start := by rw [← hs, heq, symbol_branch]
  obtain ⟨rfl, rfl⟩ := Prod.mk.inj ((congrArg span heq).symm.trans hspan)
  have hrow' : Adjoining ((0 : Nat) : Int) t.children (tokens.length : Int) := hrow
  obtain ⟨k, hk, hcovers⟩ := Derivation.covers_all hchildren (Nat.zero_le _) hrow'
  obtain rfl : k = tokens.length := by omega
  rw [hrhs] at hcovers
  obtain ⟨done, hdone, hcomplete, hdlhs, hdrhs, horigin⟩ :=
    Chart.build_done hrule hcovers (by rw [hlhs]; exact .refl)
  have hitem : done ∈ (Chart.build g lex tokens).completed Symbol.start :=
    mem_completed.2 ⟨hdone, hdlhs.trans hlhs, hcomplete, horigin⟩
  have hexpansion : t.expansion = (done.rule.lhs, done.rule.rhs, done.origin, (tokens.length : Int)) := by
    rw [expansion, hs, hrhs, hspan, hdlhs, hlhs, hdrhs, horigin]
    rfl
  have hnone : ∀ x ∈ ([] : List (Nat × Item)),
      x.2 ∈ (Chart.build g lex tokens).column x.1 ∧ tokens.length ≤ x.1 := by simp
  have hsymbols : t.children.map symbol = done.rule.rhs.take done.dot.toNat := by
    have hdot := (Chart.build_sound g lex tokens _ done hdone).dot_eq_of_complete hcomplete
    rw [hrhs, hdot, List.take_length, hdrhs]
  have hrow'' : Adjoining done.origin t.children tokens.length := by
    rw [horigin]
    exact hrow'
  have havoids : ∀ c ∈ t.children, c.Avoids (above [(tokens.length, done)]) := by
    rw [above_cons_of_complete hcomplete, ← hexpansion]
    exact (avoids_iff.1 (avoids_nil.2 hacyclic)).2
  obtain ⟨p, hp, hkey⟩ := exists_alternative hlimit hnone hdone List.not_mem_nil hsymbols hrow''
    hchildren havoids
  refine ⟨_, mem_offers.2 ⟨done, hitem, p, hp, rfl⟩, fun hall => ?_⟩
  rw [heq, canonical_branch _ (Derivation.children_ne_nil hrule hrhs), entry, Partial.close, hkey hall,
    hdlhs]

end Forest

namespace Parser

/-- The trees of a sentence: the first of what is offered, up to the bound. -/
def trees (p : Parser) (tokens : List String) : List Forest.Parse :=
  ((Forest.firstBy Prod.snd (Forest.offers p.grammar p.lexicon tokens (some p.limit))).take p.limit).map
    Prod.fst

/-- Every tree of a parser was on offer, with its canonical form. -/
theorem mem_trees {p : Parser} {tokens : List String} {tree : Forest.Parse} (h : tree ∈ p.trees tokens) :
    ∃ key, (tree, key) ∈ Forest.offers p.grammar p.lexicon tokens (some p.limit) := by
  obtain ⟨⟨_, key⟩, hmem, rfl⟩ := List.mem_map.1 h
  exact ⟨key, Forest.mem_of_mem_firstBy (List.mem_of_mem_take hmem)⟩

/-- Every tree of a sentence is a derivation tree of it from the first symbol. -/
theorem derivation_of_mem {p : Parser} {tokens : List String} {tree : Forest.Parse}
    (h : tree ∈ p.trees tokens) :
    Derivation p.grammar p.lexicon tokens tree.root ∧ tree.root.symbol = Symbol.start ∧
      tree.root.span = (0, (tokens.length : Int)) := by
  obtain ⟨_, hoffer⟩ := mem_trees h
  obtain ⟨hderivation, hsymbol, hspan, -⟩ := Forest.offers_sound hoffer
  exact ⟨hderivation, hsymbol, hspan⟩

/-- For a sentence without words there is a message and no tree. -/
theorem parse_nil (p : Parser) :
    p.parse [] = .ok { input := [], trees := [], errors := some [emptyInput] } := rfl

/-- A sentence is always answered. -/
theorem parse_eq (p : Parser) {tokens : List String} (htokens : tokens ≠ []) :
    p.parse tokens = .ok
      { input := tokens, trees := p.trees tokens,
        errors := if p.trees tokens = [] then some [noParse] else none } := by
  have hcompleted : ∀ item ∈ (Chart.build p.grammar p.lexicon tokens).completed Symbol.start,
      ∃ i : Nat, (Chart.build p.grammar p.lexicon tokens).items[i]? = some item := by
    intro item hitem
    obtain ⟨hmem, _⟩ := Forest.mem_completed.1 hitem
    exact ⟨_, (Chart.build_coherent p.grammar p.lexicon tokens).items_of_column hmem⟩
  have hlinked := (Forest.build_inRange p.grammar p.lexicon tokens).linked
    (Chart.build_coherent p.grammar p.lexicon tokens)
  rw [parse, if_neg (by simpa using htokens),
    Forest.extract_eq hlinked p.limit_pos hcompleted]
  simp [Except.map, trees, Forest.firstParses, Forest.offers]

private theorem trees_nil (p : Parser) : p.trees [] = [] := by
  refine List.eq_nil_iff_forall_not_mem.2 fun tree htree => ?_
  obtain ⟨hderivation, -, hspan⟩ := derivation_of_mem htree
  have hlt := hderivation.span_lt
  rw [hspan] at hlt
  exact Int.lt_irrefl 0 hlt

/-- The trees of an answer, whatever the sentence. -/
theorem exists_parse (p : Parser) (tokens : List String) :
    ∃ o, p.parse tokens = .ok o ∧ o.trees = p.trees tokens := by
  by_cases htokens : tokens = []
  · subst htokens
    exact ⟨_, p.parse_nil, p.trees_nil.symm⟩
  · exact ⟨_, p.parse_eq htokens, rfl⟩

end Parser

end Earley
