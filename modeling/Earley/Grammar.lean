import Earley.Groups
import Earley.Rule

namespace Earley

/-- A rule that a grammar may hold: it expands a category, and into something. -/
def Rule.IsProper (r : Rule) : Prop :=
  r.lhs.isCategory = true ∧ r.rhs ≠ []

/-- Rules in order of addition, and an index of them by their left-hand sides. The order decides the
order of parses, and it is kept wherever rules are listed. -/
structure Grammar where
  rules : List Rule := []
  index : Groups Rule := .ofList Rule.lhs rules
  proper : ∀ r ∈ rules, r.IsProper := by simp
  indexed : index = .ofList Rule.lhs rules := by rfl

namespace Grammar

def empty : Grammar := {}

instance : Inhabited Grammar := ⟨empty⟩

/-- Adds a rule at the end, also in the index. The left-hand side is looked at first, then the
right-hand side, and the weight last. -/
def add (g : Grammar) (lhs : Symbol) (rhs : List Symbol) (weight : Weight.Given) :
    Except Rule.Fault Grammar :=
  if hlhs : lhs.isCategory = true then
    if hrhs : rhs = [] then .error (.emptyRhs lhs)
    else match weight.read with
      | .error fault => .error (.badWeight fault)
      | .ok w => .ok {
          rules := g.rules ++ [⟨lhs, rhs, w⟩]
          index := g.index.add lhs ⟨lhs, rhs, w⟩
          indexed := by rw [g.indexed, Groups.ofList_append_singleton]
          proper := by
            intro r hr
            rcases List.mem_append.1 hr with hold | hnew
            · exact g.proper r hold
            · rw [List.mem_singleton.1 hnew]
              exact ⟨hlhs, hrhs⟩ }
  else .error (.notCategory lhs)

/-- The rules that expand `lhs`, in order. -/
def rulesFor (g : Grammar) (lhs : Symbol) : List Rule :=
  g.index.get lhs

/-- Categories that have a rule, in order of their first rules. -/
def categories (g : Grammar) : List Symbol :=
  g.index.keys

/-- Distinct members in order of their first places. -/
def firsts : List String → List String
  | [] => []
  | s :: rest => s :: (firsts rest).filter (· != s)

/-- Tags on some right-hand side, in ascending order. -/
def tags (g : Grammar) : List Symbol :=
  (firsts ((g.rules.flatMap Rule.rhs).filter Symbol.isTag)).mergeSort (fun s t => !(t < s))

/-- What makes rules of a grammar useless. -/
inductive Warning where
  | noStart
  | noRules (rule : Rule) (symbol : Symbol)
deriving DecidableEq, Repr

def Warning.message : Warning → String
  | .noStart => "No rules for start symbol " ++ Symbol.start
  | .noRules rule symbol => rule.text ++ ": " ++ symbol ++ " has no rules"

/-- The warnings for a grammar: first the missing start, then each place where a category without
rules stands. -/
def warnings (g : Grammar) : List Warning :=
  let defined := g.categories
  (if defined.contains Symbol.start then [] else [.noStart]) ++
    g.rules.flatMap fun r =>
      (r.rhs.filter fun s => s.isCategory && !defined.contains s).map (.noRules r)

end Grammar

end Earley
