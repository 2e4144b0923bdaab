import Earley.Proofs.Chart.Precedence
import Earley.Proofs.Forest.Prefix
import Earley.Proofs.Parse.Soundness

namespace Earley

open Earley.Tree

variable {g : Grammar} {lex : Lexicon} {tokens : List String} {limit : Option Nat}

/-- The leaves of a tree carry the first readings of their words with their tags. -/
def Tree.ReadFirst (lex : Lexicon) (t : Tree) : Prop :=
  ∀ node ∈ t.walk, node.children = [] → ∃ w r, node.word = some w ∧ node.reading = some r ∧
    lex.firstReading? w node.symbol = some r

namespace Tree.ReadFirst

/-- A leaf with the first reading of its word has first readings throughout. -/
theorem leaf {s : Symbol} {w : String} {r : Reading} (h : lex.firstReading? w s = some r)
    (span : Int × Int) : ReadFirst lex (.leaf s (some w) span (some r)) := by
  intro node hnode _
  rcases mem_walk.1 hnode with rfl | ⟨child, hchild, _⟩
  · exact ⟨w, r, rfl, rfl, h⟩
  · cases hchild

/-- A node has first readings throughout if all its children have. -/
theorem branch {s : Symbol} {children : List Tree} {span : Int × Int} (hne : children ≠ [])
    (h : ∀ child ∈ children, ReadFirst lex child) : ReadFirst lex (.branch s children span) := by
  intro node hnode hleaf
  rcases mem_walk.1 hnode with rfl | ⟨child, hchild, hmem⟩
  · exact absurd hleaf hne
  · exact h child hchild node hmem hleaf

end Tree.ReadFirst

namespace Forest

private theorem children_extend (p : Partial) (child : Tree) (key : String) :
    (p.extend child key).children = p.children ++ [child] := rfl

/-- A tree of a complete item has the leaves of its row. -/
theorem Partial.Row.readFirst_close {j : Nat} {item : Item} {p : Partial}
    (h : p.Row g lex tokens j item) (hvalid : item.Valid g lex tokens j)
    (hcomplete : item.next? = none) (hchildren : ∀ t ∈ p.children, ReadFirst lex t) :
    ReadFirst lex (p.close item).tree := by
  rw [(h.close hvalid hcomplete).1]
  exact .branch (Derivation.children_ne_nil hvalid.rule (h.symbols_of_complete hvalid hcomplete)) hchildren

/-- Along the edges over a word the first one is kept, and edges over complete items bring no new
leaves. -/
theorem readFirst_of_mem {trail : List (Nat × Item)}
    (htrail : ∀ x ∈ trail, x.2 ∈ (Chart.build g lex tokens).column x.1) {j : Nat} {item : Item}
    (hitem : item ∈ (Chart.build g lex tokens).column j) {p : Partial}
    (hp : p ∈ alternatives (Chart.build g lex tokens) limit (ids trail) item) :
    ∀ t ∈ p.children, ReadFirst lex t := by
  have hc := Chart.build_coherent g lex tokens
  -- On the number of items that are not on the path, which each step down adds one item to.
  induction hn : (offPath (Chart.build g lex tokens) (ids trail)).length using Nat.strongRecOn
    generalizing trail j item p with
  | ind n ih =>
    subst hn
    have hlt := hc.id_lt_items hitem
    by_cases hmem : item.id ∈ ids trail
    · rw [alternatives_of_mem hmem] at hp
      cases hp
    by_cases hdot : item.dot = 0
    · rw [alternatives_start hlt hmem hdot] at hp
      rw [List.mem_singleton.1 hp]
      exact fun _ ht => absurd ht List.not_mem_nil
    have hshorter := offPath_cons_lt hlt hmem
    have htrail' : ∀ x ∈ (j, item) :: trail, x.2 ∈ (Chart.build g lex tokens).column x.1 :=
      List.forall_mem_cons.2 ⟨hitem, htrail⟩
    obtain ⟨s, hs, _⟩ := (Chart.build_sound g lex tokens j item hitem).exists_last hdot
    cases hcategory : s.isCategory with
    | false =>
      obtain ⟨m, w, r, _, hfirst, waiting, hwaiting, _, heq⟩ :=
        alternatives_word hitem hmem hdot hs hcategory
      rw [heq] at hp
      obtain ⟨before, hbefore, rfl⟩ := List.mem_map.1 ((bounded_sublist limit _).subset hp)
      rw [children_extend]
      exact List.forall_mem_append.2
        ⟨ih _ hshorter htrail' hwaiting hbefore rfl, List.forall_mem_singleton.2 (.leaf hfirst _)⟩
    | true =>
      rw [alternatives_eq hlt hmem hdot] at hp
      obtain ⟨e, he, hp⟩ := List.mem_flatMap.1 (mem_of_mem_firstBy ((bounded_sublist limit _).subset hp))
      obtain ⟨waiting, done, hway, rfl⟩ := (mem_edges_iff_way hitem hdot hs hcategory).1 he
      rw [along_childEdge hc hway.waiting_mem hway.done_mem] at hp
      obtain ⟨before, hbefore, hp⟩ := List.mem_flatMap.1 hp
      obtain ⟨_, hk, _, rfl⟩ := mem_grown.1 hp
      obtain ⟨inside, hinside, rfl⟩ := List.mem_map.1 hk
      have hrow := (row_of_mem htrail' hway.done_mem hinside).1
      have hclosed := hrow.readFirst_close (Chart.build_sound g lex tokens j done hway.done_mem)
        hway.complete (ih _ hshorter htrail' hway.done_mem hinside rfl)
      rw [children_extend]
      exact List.forall_mem_append.2
        ⟨ih _ hshorter htrail' hway.waiting_mem hbefore rfl, List.forall_mem_singleton.2 hclosed⟩

/-- What is offered has the weight of the first rule for its root, and the first readings. -/
theorem offers_first {x : Parse × String} (hx : x ∈ offers g lex tokens limit) :
    (∃ rule, g.firstRule? Symbol.start (x.1.root.children.map symbol) = some rule ∧
      x.1.weight = some rule.weight) ∧ ReadFirst lex x.1.root := by
  obtain ⟨item, hitem, p, hp, rfl⟩ := mem_offers.1 hx
  obtain ⟨hmem, hlhs, hcomplete, _⟩ := mem_completed.1 hitem
  have hvalid := Chart.build_sound g lex tokens _ item hmem
  have hnone : ∀ x ∈ ([] : List (Nat × Item)), x.2 ∈ (Chart.build g lex tokens).column x.1 := by simp
  have hrow := (row_of_mem hnone hmem hp).1
  have hchildren : (p.close item).tree.children.map symbol = item.rule.rhs :=
    hrow.symbols_of_complete hvalid hcomplete
  refine ⟨⟨item.rule, ?_, rfl⟩,
    hrow.readFirst_close hvalid hcomplete (readFirst_of_mem hnone hmem hp)⟩
  rw [entry, hchildren, ← hlhs]
  exact Chart.build_leading g lex tokens _ item hmem

end Forest

/-- The first one wins. Each tree of an answer has the weight of the first rule that expands the first
symbol to the symbols of the root's children, and each leaf of it carries, of the readings of the token
that it spans, the first one with its tag. -/
theorem Parser.parse_first (p : Parser) (tokens : List String) :
    ∃ o, p.parse tokens = .ok o ∧ ∀ tree ∈ o.trees,
      (∃ rule, p.grammar.firstRule? Symbol.start (tree.root.children.map symbol) = some rule ∧
        tree.weight = some rule.weight) ∧
      ∀ node ∈ tree.root.walk, node.children = [] →
        ∃ (i : Nat) (w : String) (r : Reading), tokens[i]? = some w ∧
          node.span = ((i : Int), (i : Int) + 1) ∧ node.word = some w ∧
          p.lexicon.firstReading? w node.symbol = some r ∧ node.reading = some r := by
  obtain ⟨o, hparse, htrees⟩ := p.exists_parse tokens
  refine ⟨o, hparse, fun tree htree => ?_⟩
  rw [htrees] at htree
  obtain ⟨key, hoffer⟩ := mem_trees htree
  obtain ⟨hderivation, _⟩ := Forest.offers_sound hoffer
  obtain ⟨hweight, hleaves⟩ := Forest.offers_first hoffer
  refine ⟨hweight, fun node hnode hleaf => ?_⟩
  obtain ⟨_, i, w, _, htoken, hspan, hword, _⟩ := (hderivation.of_mem_walk node hnode).of_leaf hleaf
  obtain ⟨w', r, hword', hreading, hfirst⟩ := hleaves node hnode hleaf
  obtain rfl := Option.some.inj (hword.symm.trans hword')
  exact ⟨i, w, r, htoken, hspan, hword, hfirst, hreading⟩

end Earley
