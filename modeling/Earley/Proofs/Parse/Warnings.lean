import Earley.Proofs.Forest.Sentence

namespace Earley

open Earley.Tree

namespace Grammar

/-- A rule of the grammar expands the symbol. -/
def Expands (g : Grammar) (s : Symbol) : Prop := ∃ rule ∈ g.rules, rule.lhs = s

instance (g : Grammar) : DecidablePred g.Expands :=
  fun s => inferInstanceAs (Decidable (∃ rule ∈ g.rules, rule.lhs = s))

variable {g : Grammar}

private theorem mem_categories {s : Symbol} : s ∈ g.categories ↔ g.Expands s := by
  rw [categories_eq, List.mem_eraseDups, List.mem_map]
  exact Iff.rfl

private theorem noStart_mem_warnings : .noStart ∈ g.warnings ↔ ¬g.Expands Symbol.start := by
  rw [← mem_categories, warnings, List.mem_append]
  by_cases hstart : Symbol.start ∈ g.categories
  · simp [hstart]
  · simp [hstart]

/-- Each place where a category without rules stands is warned of, and no other place. -/
theorem noRules_mem_warnings {rule : Rule} {s : Symbol} : .noRules rule s ∈ g.warnings ↔
    rule ∈ g.rules ∧ s ∈ rule.rhs ∧ s.isCategory = true ∧ ¬g.Expands s := by
  rw [← mem_categories, warnings, List.mem_append]
  by_cases hstart : Symbol.start ∈ g.categories
  · simp [hstart, and_assoc]
  · simp [hstart, and_assoc]

private theorem warnings_eq_nil_iff : g.warnings = [] ↔ g.Expands Symbol.start ∧
    ∀ rule ∈ g.rules, ∀ s ∈ rule.rhs, s.isCategory = true → g.Expands s := by
  rw [List.eq_nil_iff_forall_not_mem]
  constructor
  · intro hnone
    refine ⟨?_, fun rule hrule s hs hcategory => ?_⟩
    · by_contra hstart
      exact hnone _ (noStart_mem_warnings.2 hstart)
    · by_contra hmissing
      exact hnone _ (noRules_mem_warnings.2 ⟨hrule, hs, hcategory, hmissing⟩)
  · rintro ⟨hstart, hall⟩ (_ | ⟨rule, s⟩) hmem
    · exact noStart_mem_warnings.1 hmem hstart
    · obtain ⟨hrule, hs, hcategory, hnone⟩ := noRules_mem_warnings.1 hmem
      exact hnone (hall rule hrule s hs hcategory)

end Grammar

open Grammar

variable {g : Grammar} {lex : Lexicon} {tokens : List String}

namespace Tree.Derivation

/-- Whatever category stands in a derivation tree, a rule expands it. -/
theorem expands {t : Tree} (h : Derivation g lex tokens t) (hcategory : t.symbol.isCategory = true) :
    g.Expands t.symbol := by
  obtain ⟨rule, hrule, _, _, heq, -⟩ := h.exists_rule hcategory
  exact ⟨rule, hrule, (congrArg Tree.symbol heq).symm⟩

/-- A node whose children are derivation trees has no category without rules among them. -/
theorem expands_of_children {t : Tree} (h : Derivation g lex tokens t) {s : Symbol}
    (hs : s ∈ t.children.map symbol) (hcategory : s.isCategory = true) : g.Expands s := by
  obtain ⟨child, hchild, rfl⟩ := List.mem_map.1 hs
  exact (h.of_mem_walk child (mem_walk.2 (.inr ⟨child, hchild, self_mem_walk child⟩))).expands hcategory

end Tree.Derivation

/-- A grammar has no warnings just if its start symbol and each category on a right-hand side have rules.
Whatever the lexicon, the sentence and the bound, no node of a tree is the expansion of a rule that is
warned of, and there are no trees where the start symbol is. -/
theorem Grammar.warnings_exact (g : Grammar) :
    (g.warnings = [] ↔ g.Expands Symbol.start ∧
      ∀ rule ∈ g.rules, ∀ s ∈ rule.rhs, s.isCategory = true → g.Expands s) ∧
    (∀ rule s, .noRules rule s ∈ g.warnings → ∀ p : Parser, p.grammar = g → ∀ tokens,
      ∃ o, p.parse tokens = .ok o ∧ ∀ tree ∈ o.trees, ∀ node ∈ tree.root.walk,
        ¬(node.symbol = rule.lhs ∧ node.children.map symbol = rule.rhs)) ∧
    (.noStart ∈ g.warnings → ∀ p : Parser, p.grammar = g → ∀ tokens,
      ∃ o, p.parse tokens = .ok o ∧ o.trees = []) := by
  refine ⟨warnings_eq_nil_iff, ?_, ?_⟩
  · rintro rule s hwarned p rfl tokens
    obtain ⟨-, hs, hcategory, hnone⟩ := noRules_mem_warnings.1 hwarned
    obtain ⟨o, hparse, htrees⟩ := p.exists_parse tokens
    refine ⟨o, hparse, fun tree htree node hnode => ?_⟩
    rintro ⟨-, hrhs⟩
    have hderivation := (Parser.derivation_of_mem (htrees ▸ htree)).1.of_mem_walk node hnode
    exact hnone (hderivation.expands_of_children (hrhs ▸ hs) hcategory)
  · rintro hwarned p rfl tokens
    obtain ⟨o, hparse, htrees⟩ := p.exists_parse tokens
    refine ⟨o, hparse, List.eq_nil_iff_forall_not_mem.2 fun tree htree => ?_⟩
    obtain ⟨hderivation, hsymbol, -⟩ := Parser.derivation_of_mem (htrees ▸ htree)
    have hexpands := hderivation.expands (hsymbol ▸ by decide)
    exact noStart_mem_warnings.1 hwarned (hsymbol ▸ hexpands)

/-- A parser with a rule that waits for a category without rules, beside one for the same sentence. -/
def lacking : Parser where
  grammar :=
    { rules := [⟨"S", ["NP", "V"], Binary64.one⟩, ⟨"S", ["N", "V"], Binary64.one⟩]
      proper := by
        unfold Rule.IsProper
        decide }
  lexicon := (Lexicon.empty.add "x" "N").add "x" "V"
  limit := 1
  limit_pos := by decide

/-- A rule that asks for a category without rules, beside one that can be used. -/
theorem warnings_exact_lacking :
    .noRules ⟨"S", ["NP", "V"], Binary64.one⟩ "NP" ∈ lacking.grammar.warnings ∧
    ∃ o, lacking.parse ["x", "x"] = .ok o ∧ ∀ tree ∈ o.trees, ∀ node ∈ tree.root.walk,
      ¬(node.symbol = "S" ∧ node.children.map symbol = ["NP", "V"]) := by
  have hwarned : .noRules ⟨"S", ["NP", "V"], Binary64.one⟩ "NP" ∈ lacking.grammar.warnings := by decide
  exact ⟨hwarned, lacking.grammar.warnings_exact.2.1 _ _ hwarned lacking rfl ["x", "x"]⟩

end Earley
