import Earley.Proofs.Chart.Indexed
import Earley.Proofs.Forest.Sentence

namespace Earley.Parser

open Grammar Earley.Tree

variable {tokens : List String}

/-- The first symbol derives a sentence exactly when it has a derivation tree over it. -/
theorem derives_start_iff {g : Grammar} {lex : Lexicon} :
    g.Derives lex [.symbol Symbol.start] (tokens.map .word) ↔
      ∃ t, Derivation g lex tokens t ∧ t.symbol = Symbol.start ∧
        t.span = (0, (tokens.length : Int)) := by
  have hwords : g.Derives lex [.symbol Symbol.start]
      (((tokens.take tokens.length).drop 0).map .word) ↔
        g.Covers lex tokens [.symbol Symbol.start] 0 tokens.length :=
    derives_words_iff (Nat.zero_le _) (Nat.le_refl _)
  rw [List.take_length, List.drop_zero] at hwords
  rw [hwords]
  constructor
  · intro hcovers
    exact exists_of_covers hcovers
  · rintro ⟨t, ht, hsymbol, hspan⟩
    obtain ⟨i, j, hspan', hcovers⟩ := ht.covers
    obtain ⟨hi, hj⟩ := Prod.mk.inj (hspan'.symm.trans hspan)
    obtain rfl : i = 0 := by omega
    obtain rfl : j = tokens.length := by omega
    rwa [hsymbol] at hcovers

/-- A parser finds a tree exactly if the sentence can be derived from the start symbol. -/
theorem trees_ne_nil_iff (p : Parser) (tokens : List String) :
    p.trees tokens ≠ [] ↔
      p.grammar.Derives p.lexicon [.symbol Symbol.start] (tokens.map .word) := by
  rw [derives_start_iff]
  constructor
  · intro hne
    obtain ⟨tree, rest, heq⟩ := List.exists_cons_of_ne_nil hne
    have hmem : tree ∈ p.trees tokens := heq ▸ List.mem_cons_self
    obtain ⟨hderivation, hsymbol, hspan⟩ := derivation_of_mem hmem
    exact ⟨tree.root, hderivation, hsymbol, hspan⟩
  · rintro ⟨t, ht, hsymbol, hspan⟩
    obtain ⟨t', ht', hsymbol', hspan', hacyclic⟩ := exists_acyclic ht
    have hlimit := p.limit_pos
    have hbound : ∀ m, some p.limit = some m → 0 < m := fun m hm => Option.some.inj hm ▸ hlimit
    obtain ⟨x, hx, _⟩ := Forest.exists_offer hbound ht' (hsymbol'.trans hsymbol)
      (hspan'.trans hspan) hacyclic
    have hsome : Forest.firstBy Prod.snd
        (Forest.offers p.grammar p.lexicon tokens (some p.limit)) ≠ [] :=
      Forest.firstBy_ne_nil (List.ne_nil_of_mem hx)
    rw [trees, Ne, List.map_eq_nil_iff, List.take_eq_nil_iff, not_or]
    exact ⟨by omega, hsome⟩

/-- Every sentence is answered, and no index that is used on the way is out of range. The answer has
trees exactly when there are tokens and the first symbol derives them; otherwise it says what was
wrong. -/
theorem parse_recognizes (p : Parser) (tokens : List String) :
    Chart.buildIndexed p.grammar p.lexicon tokens = some (Chart.build p.grammar p.lexicon tokens) ∧
    Forest.InRange (Chart.build p.grammar p.lexicon tokens) ∧
    ∃ o, p.parse tokens = .ok o ∧
      (o.trees ≠ [] ↔ tokens ≠ [] ∧
        p.grammar.Derives p.lexicon [.symbol Symbol.start] (tokens.map .word)) ∧
      (o.errors = none ↔ o.trees ≠ []) ∧
      (o.errors = some ["Empty input"] ↔ tokens = []) ∧
      (o.errors = some ["No valid parse found"] ↔ tokens ≠ [] ∧ o.trees = []) := by
  refine ⟨Chart.buildIndexed_eq_some _ _ _, Forest.build_inRange _ _ _, ?_⟩
  by_cases htokens : tokens = []
  · subst htokens
    refine ⟨_, p.parse_nil, ?_⟩
    simp [emptyInput]
  · refine ⟨_, p.parse_eq htokens, ?_⟩
    have htrees := p.trees_ne_nil_iff tokens
    by_cases hempty : p.trees tokens = []
    · have hderives := mt htrees.2 (not_not.2 hempty)
      simp [hempty, htokens, hderives, noParse]
    · have hderives := htrees.1 hempty
      simp [hempty, htokens, hderives]

end Earley.Parser
