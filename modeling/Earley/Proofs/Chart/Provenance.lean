import Earley.Proofs.Chart.Edges

namespace Earley

open Grammar

/-- An item of the form `lhs -> found . rest` that began in column `origin`. -/
structure Item.Stands (item : Item) (lhs : Symbol) (found rest : List Symbol) (origin : Int) : Prop where
  lhs : item.rule.lhs = lhs
  rhs : item.rule.rhs = found ++ rest
  dot : item.dot = found.length
  origin : item.origin = origin

namespace Item.Stands

variable {item waiting : Item} {lhs s : Symbol} {found rest : List Symbol} {origin : Int}

private theorem dot_ne_zero (h : item.Stands lhs (found ++ [s]) rest origin) : item.dot ≠ 0 := by
  have hdot := h.dot
  rw [List.length_append, List.length_singleton] at hdot
  omega

/-- The last symbol that was found is the one right before the dot. -/
theorem last (h : item.Stands lhs (found ++ [s]) rest origin) :
    item.rule.rhs[item.dot.toNat - 1]? = some s := by
  rw [h.rhs, h.dot]
  simp

/-- What stood before the last symbol was found. -/
theorem isAt_iff (h : item.Stands lhs (found ++ [s]) rest origin) :
    waiting.isAt item.rule (item.dot - 1) item.origin = true ↔
      waiting.Stands lhs found (s :: rest) origin := by
  have hdot := h.dot
  have hrhs := h.rhs
  rw [List.length_append, List.length_singleton] at hdot
  rw [List.append_assoc, List.singleton_append] at hrhs
  rw [Item.isAt_iff, h.lhs, hrhs, h.origin]
  constructor
  · rintro ⟨hwdot, hworigin, hwlhs, hwrhs⟩
    exact ⟨hwlhs, hwrhs, by omega, hworigin⟩
  · rintro ⟨hwlhs, hwrhs, hwdot, hworigin⟩
    exact ⟨by omega, hworigin, hwlhs, hwrhs⟩

end Item.Stands

namespace Chart

variable {g : Grammar} {lex : Lexicon} {tokens : List String} {j : Nat} {item : Item}

/-- An item that has found something was reached in some way. -/
theorem build_edges_ne_nil (hmem : item ∈ (build g lex tokens).column j) (hdot : item.dot ≠ 0) :
    (build g lex tokens).edgesOf item.id ≠ [] := by
  have hvalid := build_sound g lex tokens j item hmem
  have hpositive : 0 < item.dot := by
    have := hvalid.dot_nonneg
    omega
  obtain ⟨s, hs, _, _⟩ := hvalid.exists_last hdot
  obtain ⟨m, waiting, hwaiting, hat, hcovers⟩ := build_previous g lex tokens hmem hdot hs
  cases hcategory : s.isCategory with
  | false =>
    obtain ⟨_, w, _, _, ⟨_, r, hr, hpos⟩, _, _, _, hedges⟩ :=
      build_edges_word g lex tokens hmem hdot hs hcategory
    rw [hedges]
    have hsome : r ∈ (lex.lookup w).filter (·.pos == s) := by simp [hr, hpos]
    simpa using List.ne_nil_of_mem hsome
  | true =>
    cases hcovers with
    | tag _ htag _ =>
      have hfalse : s.isCategory = false := by simpa [Symbol.isTag] using htag.1
      rw [hfalse] at hcategory
      cases hcategory
    | @rule rule _ _ k _ hrule hrhs hrest =>
      obtain ⟨rfl, _⟩ := covers_nil.1 hrest
      have hnext := Item.next?_of_isAt hpositive hs hat
      have hopens := ((build_sound g lex tokens m waiting hwaiting).predict hrule hnext 0).opens
      obtain ⟨done, hdone, hcomplete, hlhs, _, horigin⟩ := build_done hrule hrhs hopens
      exact List.ne_nil_of_mem (((build_edges_child g lex tokens hmem hdot hs hcategory).2 _).2
        ⟨m, waiting, hwaiting, done, hdone, hat, hcomplete, hlhs, horigin, rfl⟩)

/-- The edges of a finished chart are exact. Edges tell items by their numbers. An item has none
exactly when it has found nothing. If it has found a tag last, its edges are the readings of the
word before its column with that tag, in the order of the lexicon, after the item of the column
before that waited for the tag. If it has found a category last, each edge goes over a complete item
of its column for the category, after an item of an earlier column that waited for it where it
began, and there is one edge for each such pair. -/
theorem build_edges_exact (g : Grammar) (lex : Lexicon) (tokens : List String) :
    (∀ (j : Nat) (item : Item), item ∈ (build g lex tokens).column j →
      (build g lex tokens).item? item.id = some item ∧
        ((build g lex tokens).edgesOf item.id = [] ↔ item.dot = 0)) ∧
    (∀ (j : Nat) (item : Item) (lhs tag : Symbol) (found rest : List Symbol) (origin : Int),
      item ∈ (build g lex tokens).column j → item.Stands lhs (found ++ [tag]) rest origin →
      tag.isTag = true →
      ∃ m w, j = m + 1 ∧ tokens[m]? = some w ∧
        ∃ waiting ∈ (build g lex tokens).column m, waiting.Stands lhs found (tag :: rest) origin ∧
          (build g lex tokens).edgesOf item.id = ((lex.lookup w).filter (·.pos == tag)).map fun r =>
            { previous := waiting.id, child := none, word := some w, reading := some r }) ∧
    (∀ (j : Nat) (item : Item) (lhs s : Symbol) (found rest : List Symbol) (origin : Int),
      item ∈ (build g lex tokens).column j → item.Stands lhs (found ++ [s]) rest origin →
      s.isCategory = true →
      (∀ e ∈ (build g lex tokens).edgesOf item.id,
        ∃ m < j, ∃ waiting ∈ (build g lex tokens).column m, ∃ done ∈ (build g lex tokens).column j,
          waiting.Stands lhs found (s :: rest) origin ∧ done.rule.lhs = s ∧ done.isComplete = true ∧
            done.origin = m ∧
              e = { previous := waiting.id, child := some done.id, word := none, reading := none }) ∧
      ∀ m < j, ∀ waiting ∈ (build g lex tokens).column m, ∀ done ∈ (build g lex tokens).column j,
        waiting.Stands lhs found (s :: rest) origin → done.rule.lhs = s → done.isComplete = true →
          done.origin = m → ((build g lex tokens).edgesOf item.id).count
            { previous := waiting.id, child := some done.id, word := none, reading := none } = 1) := by
  have hc := build_coherent g lex tokens
  have hsound := build_sound g lex tokens
  refine ⟨?_, ?_, ?_⟩
  · intro j item hmem
    refine ⟨hc.item?_of_mem hmem, fun hedges => ?_, build_edges_start g lex tokens hmem⟩
    by_contra hdot
    exact build_edges_ne_nil hmem hdot hedges
  · intro j item lhs tag found rest origin hmem hstands htag
    have hcategory : tag.isCategory = false := by simpa [Symbol.isTag] using htag
    obtain ⟨m, w, hj, hword, _, waiting, hwaiting, hat, hedges⟩ :=
      build_edges_word g lex tokens hmem hstands.dot_ne_zero hstands.last hcategory
    exact ⟨m, w, hj, hword, waiting, hwaiting, hstands.isAt_iff.1 hat, hedges⟩
  · intro j item lhs s found rest origin hmem hstands hcategory
    obtain ⟨hnodup, hedges⟩ :=
      build_edges_child g lex tokens hmem hstands.dot_ne_zero hstands.last hcategory
    constructor
    · intro e he
      obtain ⟨m, waiting, hwaiting, done, hdone, hat, hcomplete, hlhs, horigin, rfl⟩ := (hedges e).1 he
      have hvalid := hsound j done hdone
      have hlt := hvalid.origin_lt_of_complete hcomplete
      exact ⟨m, by omega, waiting, hwaiting, done, hdone, hstands.isAt_iff.1 hat, hlhs,
        (Item.isComplete_iff hvalid.dot_nonneg).2 hcomplete, horigin, rfl⟩
    · intro m _ waiting hwaiting done hdone hwaits hlhs hcomplete horigin
      have hdot := (hsound j done hdone).dot_nonneg
      refine List.count_eq_one_of_mem hnodup ((hedges _).2 ?_)
      exact ⟨m, waiting, hwaiting, done, hdone, hstands.isAt_iff.2 hwaits,
        (Item.isComplete_iff hdot).1 hcomplete, hlhs, horigin, rfl⟩

end Chart

end Earley
