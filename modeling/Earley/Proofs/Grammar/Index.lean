import Earley.Grammar
import Earley.Proofs.Groups.Contents

namespace Earley.Grammar

variable {g : Grammar}

/-- The rules of a category in the index are those of the list with that left side, in their order. -/
theorem rulesFor_eq (g : Grammar) (s : Symbol) : g.rulesFor s = g.rules.filter (·.lhs == s) := by
  rw [rulesFor, g.indexed, Groups.get_ofList]

/-- The categories of the index are the left sides of the list, each once. -/
theorem categories_eq (g : Grammar) : g.categories = (g.rules.map Rule.lhs).eraseDups := by
  rw [categories, g.indexed, Groups.keys_ofList]

/-- The index has exactly the rules of the grammar, each under its left side. -/
theorem mem_rulesFor {rule : Rule} {s : Symbol} :
    rule ∈ g.rulesFor s ↔ rule ∈ g.rules ∧ rule.lhs = s := by
  rw [rulesFor_eq, List.mem_filter, beq_iff_eq]

end Earley.Grammar
