import Earley.Proofs.Chart.Alike
import Earley.Proofs.Forest.Distinct

namespace Earley.Forest

open Grammar Earley.Tree

/-- Partial derivations with the same children, words and readings apart. -/
structure Partial.Alike (p p' : Partial) : Prop where
  children : p.children.map shape = p'.children.map shape
  stop : p.stop = p'.stop

namespace Partial.Alike

variable {p p' q q' : Partial}

/-- Rows that are alike stay so when trees of one shape are put to their ends. -/
theorem extend (h : p.Alike p') {t t' : Tree} (ht : t.shape = t'.shape) (key key' : String) :
    (p.extend t key).Alike (p'.extend t' key') := by
  constructor
  · simp only [Partial.extend, List.map_append, List.map_singleton, h.children, ht]
  · simp only [Partial.extend]
    rw [← span_shape, ht, span_shape]

private theorem shape_close (h : p.Alike p') {item item' : Item} (hitem : item.Alike item') :
    (p.close item).tree.shape = (p'.close item').tree.shape := by
  simp only [Partial.close, shape_branch, h.children, h.stop, hitem.lhs, hitem.origin]

/-- Rows that are alike stay so when rows of finished items that are alike are closed and put to their
ends. -/
theorem joined (h : p.Alike p') (hq : q.Alike q') {done done' : Item} (hdone : done.Alike done') :
    (joined done p q).Alike (joined done' p' q') :=
  h.extend (hq.shape_close hdone) _ _

end Partial.Alike

private theorem forall₂_joined {done done' : Item} (hdone : done.Alike done') {ps ps' qs qs' : List Partial}
    (hp : List.Forall₂ Partial.Alike ps ps') (hq : List.Forall₂ Partial.Alike qs qs') :
    List.Forall₂ Partial.Alike (ps.flatMap fun p => qs.map (joined done p))
      (ps'.flatMap fun p => qs'.map (joined done' p)) := by
  refine forall₂_flatMap hp fun p _ p' _ h => ?_
  exact List.rel_map (fun (q q' : Partial) (hq : q.Alike q') => h.joined hq hdone) hq

section

variable {g g' : Grammar} {lex lex' : Lexicon} {tokens tokens' : List String}

/-- Items that are the same have alternatives that are the same, each in its chart. -/
theorem alternatives_alike (hclean : ∀ rule ∈ g.rules, ∀ s ∈ rule.rhs, Spaceless s)
    (hclean' : ∀ rule ∈ g'.rules, ∀ s ∈ rule.rhs, Spaceless s) (hrules : g.expansions = g'.expansions)
    (htags : lex.TagAlike lex' tokens tokens') {trail trail' : List (Nat × Item)}
    (hids : ids trail = ids trail')
    (htrail : ∀ x ∈ trail, x.2 ∈ (Chart.build g lex tokens).column x.1)
    (htrail' : ∀ x ∈ trail', x.2 ∈ (Chart.build g' lex' tokens').column x.1) {j : Nat}
    {item item' : Item} (hitem : item ∈ (Chart.build g lex tokens).column j)
    (hitem' : item' ∈ (Chart.build g' lex' tokens').column j) (hsame : item.Alike item') :
    List.Forall₂ Partial.Alike (alternatives (Chart.build g lex tokens) none (ids trail) item)
      (alternatives (Chart.build g' lex' tokens') none (ids trail') item') := by
  have hcharts := Chart.build_alike hrules htags
  have hc := Chart.build_coherent g lex tokens
  have hd := Chart.build_coherent g' lex' tokens'
  -- On the number of items that are not on the path, as in either chart by itself.
  induction hsize : (offPath (Chart.build g lex tokens) (ids trail)).length using Nat.strongRecOn
    generalizing trail trail' j item item' with
  | ind size ih =>
    subst hsize
    have hlt := hc.id_lt_items hitem
    by_cases hmem : item.id ∈ ids trail
    · have hmem' : item'.id ∈ ids trail' := by rwa [← hids, ← hsame.id]
      rw [alternatives_of_mem hmem, alternatives_of_mem hmem']
      exact .nil
    have hmem' : item'.id ∉ ids trail' := by rwa [← hids, ← hsame.id]
    by_cases hdot : item.dot = 0
    · rw [alternatives_start hlt hmem hdot,
        alternatives_start (hd.id_lt_items hitem') hmem' (hsame.dot ▸ hdot)]
      exact .cons ⟨rfl, hsame.origin⟩ .nil
    have hdot' : item'.dot ≠ 0 := hsame.dot ▸ hdot
    obtain ⟨s, hs, _⟩ := (Chart.build_sound g lex tokens j item hitem).exists_last hdot
    have hs' : item'.rule.rhs[item'.dot.toNat - 1]? = some s := by rw [← hsame.rhs, ← hsame.dot, hs]
    have hbelow {k : Nat} {other other' : Item} (hother : other ∈ (Chart.build g lex tokens).column k)
        (hother' : other' ∈ (Chart.build g' lex' tokens').column k) (halike : other.Alike other') :
        List.Forall₂ Partial.Alike
          (alternatives (Chart.build g lex tokens) none (ids ((j, item) :: trail)) other)
          (alternatives (Chart.build g' lex' tokens') none (ids ((j, item') :: trail')) other') :=
      ih _ (offPath_cons_lt hlt hmem) (by rw [ids_cons, ids_cons, hids, hsame.id])
        (List.forall_mem_cons.2 ⟨hitem, htrail⟩) (List.forall_mem_cons.2 ⟨hitem', htrail'⟩) hother hother'
        halike rfl
    cases hcategory : s.isCategory with
    | false =>
      obtain ⟨m, w, r, hj, _, waiting, hwaiting, hat, heq⟩ :=
        alternatives_word hitem hmem hdot hs hcategory
      obtain ⟨m', w', r', hj', _, waiting', hwaiting', hat', heq'⟩ :=
        alternatives_word hitem' hmem' hdot' hs' hcategory
      obtain rfl : m = m' := by omega
      have halike := hcharts.of_isAt hd hsame hwaiting hwaiting' hat hat'
      rw [heq, heq']
      refine List.rel_map (fun p p' hp => hp.extend ?_ _ _) (hbelow hwaiting hwaiting' halike)
      rw [shape_leaf, shape_leaf, hp.stop]
    | true =>
      -- Edges over complete items hold numbers only, and these agree.
      have hedges := Chart.build_edges_alike hrules htags hitem hitem' hsame hdot hs hcategory
      have hsplit := alternatives_category hclean htrail hitem hmem hdot hs hcategory none
      have hsplit' := alternatives_category hclean' htrail' hitem' hmem' hdot' hs' hcategory none
      have hrefl : List.Forall₂ (· = ·) ((Chart.build g lex tokens).edgesOf item.id)
          ((Chart.build g' lex' tokens').edgesOf item'.id) := by rw [hedges, List.forall₂_eq_eq_eq]
      rw [hsplit, hsplit', bounded, bounded]
      refine forall₂_flatMap hrefl fun e he e' he' heq => ?_
      obtain ⟨waiting, done, h, rfl⟩ := (mem_edges_iff_way hitem hdot hs hcategory).1 he
      obtain ⟨waiting', done', h', rfl⟩ := (mem_edges_iff_way hitem' hdot' hs' hcategory).1 he'
      obtain ⟨hwaiting, hdone⟩ := Chart.childEdge_inj heq
      have hwaitingSame := hcharts.of_id hd h.waiting_mem h'.waiting_mem hwaiting
      have hdoneSame := hcharts.of_id hd h.done_mem h'.done_mem hdone
      rw [along_way h fun p hp => stop_of_mem (List.forall_mem_cons.2 ⟨hitem, htrail⟩) h hp,
        along_way h' fun p hp => stop_of_mem (List.forall_mem_cons.2 ⟨hitem', htrail'⟩) h' hp]
      exact forall₂_joined hdoneSame
        (hbelow h.waiting_mem (hdoneSame.origin ▸ h'.waiting_mem) hwaitingSame)
        (hbelow h.done_mem h'.done_mem hdoneSame)

/-- All that is offered for the two sentences is the same, words and readings apart. -/
theorem offers_alike (hclean : ∀ rule ∈ g.rules, ∀ s ∈ rule.rhs, Spaceless s)
    (hclean' : ∀ rule ∈ g'.rules, ∀ s ∈ rule.rhs, Spaceless s) (hrules : g.expansions = g'.expansions)
    (htags : lex.TagAlike lex' tokens tokens') :
    (offers g lex tokens none).map (·.1.root.shape) =
      (offers g' lex' tokens' none).map (·.1.root.shape) := by
  have hcharts := Chart.build_alike hrules htags
  have hcompleted : List.Forall₂ Item.Alike ((Chart.build g lex tokens).completed Symbol.start)
      ((Chart.build g' lex' tokens').completed Symbol.start) := by
    have hlast : (Chart.build g lex tokens).columns.size = (Chart.build g' lex' tokens').columns.size :=
      Chart.build_columns_alike htags
    rw [Chart.completed, Chart.completed, ← hlast]
    refine List.rel_filter (fun item item' halike => ?_) (hcharts.columns _)
    simp only [halike.lhs, halike.isComplete_eq, halike.origin]
  refine map_eq_map_of_forall₂ (R := fun x x' => x.1.root.shape = x'.1.root.shape) ?_ fun _ _ h => h
  refine forall₂_flatMap hcompleted fun item hitem item' hitem' halike => ?_
  have hnone (c : Chart) : ∀ x ∈ ([] : List (Nat × Item)), x.2 ∈ c.column x.1 := by simp
  have hlength := htags.length_eq
  have halternatives := alternatives_alike hclean hclean' hrules htags
    (show ids [] = ids [] from rfl) (hnone _) (hnone _) (mem_completed.1 hitem).1
    (hlength ▸ (mem_completed.1 hitem').1) halike
  rw [List.map_map, List.map_map]
  exact List.rel_map (fun p p' hp => hp.shape_close halike) halternatives

end

end Earley.Forest
