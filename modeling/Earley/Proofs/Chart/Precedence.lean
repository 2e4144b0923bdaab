import Earley.Proofs.Chart.Items

namespace Earley

/-- The first rule of a grammar that expands a category to the given symbols. -/
def Grammar.firstRule? (g : Grammar) (lhs : Symbol) (rhs : List Symbol) : Option Rule :=
  g.rules.find? fun rule => rule.lhs == lhs && rule.rhs == rhs

/-- The first rule of its kind is the first among the rules for its category. -/
theorem Grammar.firstRule?_eq (g : Grammar) (lhs : Symbol) (rhs : List Symbol) :
    g.firstRule? lhs rhs = (g.rulesFor lhs).find? fun rule => rule.lhs == lhs && rule.rhs == rhs := by
  rw [firstRule?, Grammar.rulesFor_eq, List.find?_filter]
  congr 1
  funext rule
  rw [Bool.eq_iff_iff, decide_eq_true_eq, Bool.and_eq_true]
  exact ⟨fun h => ⟨h.1, h⟩, And.right⟩

namespace Chart

variable {g : Grammar} {lex : Lexicon} {tokens : List String} {c : Chart}

/-- Every item goes by the first of the rules that say the same as its own. -/
def Leading (g : Grammar) (c : Chart) : Prop :=
  ∀ (j : Nat) (item : Item), item ∈ c.column j →
    g.firstRule? item.rule.lhs item.rule.rhs = some item.rule

namespace Leading

variable {k : Nat}

/-- An empty chart has nothing out of order. -/
theorem empty (g : Grammar) (tokens : List String) : Leading g (Chart.empty tokens) := by
  intro j item hmem
  rw [column_empty] at hmem
  simp at hmem

/-- Only an item that is not there yet has to go by a first rule. -/
theorem insert (h : Leading g c) (hc : c.Coherent) (hk : k < c.columns.size) {rule : Rule} {dot origin : Int}
    (hrule : ¬ c.Has k rule dot origin → g.firstRule? rule.lhs rule.rhs = some rule) :
    Leading g (c.insert k rule dot origin).2 := by
  rcases insert_cases hc k rule dot origin with ⟨_, _, _, heq⟩ | ⟨hnew, heq⟩
  · rw [heq]
    exact h
  · rw [heq]
    intro j item hmem
    rw [column_pushItem c k j _ hk] at hmem
    split at hmem
    · rcases Array.mem_push.1 hmem with hold | rfl
      · exact h j item hold
      · exact hrule hnew
    · exact h j item hmem

/-- Edges do not count for the order of items. -/
theorem addEdge (h : Leading g c) (id : Nat) (edge : Edge) : Leading g (c.addEdge id edge) := h

/-- An item that is moved keeps its rule. -/
theorem advance (h : Leading g c) (hc : c.Coherent) (hk : k < c.columns.size) {item : Item}
    (hitem : g.firstRule? item.rule.lhs item.rule.rhs = some item.rule) (edge : Edge) :
    Leading g (c.advance k item edge) := by
  rw [advance_eq]
  exact (h.insert hc hk fun _ => hitem).addEdge _ edge

end Leading

/-- Where the rules for a symbol are inserted from the first to the last and one of them makes a new
item, no earlier one says the same. -/
private theorem Leading.foldl_insert {pos : Nat} {s : Symbol} {before rules : List Rule}
    (hsplit : g.rulesFor s = before ++ rules) (h : Leading g c) (hc : c.Coherent)
    (hpos : pos < c.columns.size) (hbefore : ∀ rule ∈ before, c.Has pos rule 0 pos) :
    Leading g (rules.foldl (fun c rule => (c.insert pos rule 0 pos).2) c) := by
  -- On the rules to come, while those before them have their items.
  induction rules generalizing before c with
  | nil => exact h
  | cons rule rest ih =>
    obtain ⟨hc', hext, hmem, hat⟩ := insert_spec hc (Nat.zero_le pos) hpos rule 0 pos
    have hrule : rule ∈ g.rulesFor s := by
      rw [hsplit]
      exact List.mem_append_right before List.mem_cons_self
    have hlhs := (Grammar.mem_rulesFor.1 hrule).2
    have hnext : Leading g (c.insert pos rule 0 pos).2 := by
      refine h.insert hc hpos fun hnew => ?_
      have hnone : before.find? (fun r => r.lhs == rule.lhs && r.rhs == rule.rhs) = none := by
        refine List.find?_eq_none.2 fun r hr hsame => hnew ?_
        obtain ⟨hrlhs, hrrhs⟩ := Bool.and_eq_true_iff.1 hsame
        exact (hbefore r hr).congr (beq_iff_eq.1 hrlhs) (beq_iff_eq.1 hrrhs)
      rw [Grammar.firstRule?_eq, hlhs, hsplit, ← hlhs, List.find?_append, hnone, Option.none_or,
        List.find?_cons_of_pos (by simp)]
    refine ih (by rw [hsplit, List.append_cons]) hnext hc' (by rwa [hext.size]) fun r hr => ?_
    rcases List.mem_append.1 hr with hold | hlast
    · exact hext.has (hbefore r hold)
    · rw [List.mem_singleton.1 hlast]
      exact ⟨_, hmem, hat⟩

/-- A prediction keeps the order of items: it puts in all rules of the symbol in turn. -/
theorem Leading.predict {pos : Nat} (h : Leading g c) (hc : c.Coherent) (hpos : pos < c.columns.size)
    (s : Symbol) : Leading g (c.predict g pos s) :=
  h.foldl_insert (List.nil_append _).symm hc hpos fun _ hrule => absurd hrule List.not_mem_nil

/-- All through its filling, a chart has first what comes from the first rule that fits. -/
theorem Filling.leading {pos i : Nat} (h : Filling g lex tokens pos i c) : Leading g c := by
  induction h with
  | seed =>
    have hempty := Coherent.empty tokens
    exact (Leading.empty g tokens).predict hempty (by rw [hempty.columns_size]; exact Nat.succ_pos _)
      Symbol.start
  | @step pos i c item h hitem ih =>
    obtain rfl := h.tokens_eq
    have hpos := h.pos_le
    by_cases hpredicts : ∃ s, item.next? = some s ∧ s.isCategory = true
    · obtain ⟨s, hnext, hcategory⟩ := hpredicts
      have hprocess : c.process g (nextWord lex c.tokens pos) pos item = c.predict g pos s := by
        simp only [process, hnext, hcategory, if_true]
      rw [hprocess]
      exact ih.predict h.coherent (by rw [h.size]; omega) s
    · -- The other two ways to go on move items, which keep their rules.
      refine (process_induction h.coherent hpos item ih ?_ ?_ ?_).2
      · intro s hnext hcategory
        exact absurd ⟨s, hnext, hcategory⟩ hpredicts
      · intro s word _ _ hword r _ _ d hd hleading
        have hlt := (List.getElem?_eq_some_iff.1 hword).1
        exact hleading.advance hd.coherent (by rw [hd.size]; omega)
          (ih pos item (Array.mem_of_getElem? hitem)) _
      · intro _ waiting hwaiting _ d hd hleading
        exact hleading.advance hd.coherent (by rw [hd.size]; omega) (ih _ waiting hwaiting) _
  | turn _ _ _ ih => exact ih

/-- In the chart of a sentence, of items with the same sides the one of the first rule is met first. -/
theorem build_leading (g : Grammar) (lex : Lexicon) (tokens : List String) :
    Leading g (build g lex tokens) :=
  (build_filling g lex tokens).choose_spec.1.leading

end Chart

end Earley
