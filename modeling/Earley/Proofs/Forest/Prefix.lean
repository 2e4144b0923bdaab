import Earley.Proofs.Forest.Sound

namespace Earley

/-- The first reading of a word with a given tag. -/
def Lexicon.firstReading? (lex : Lexicon) (word : String) (tag : Symbol) : Option Reading :=
  (lex.lookup word).find? (·.pos == tag)

namespace Forest

open Grammar Earley.Tree

section

variable {α β : Type}

/-- Of lists that are put together, the first elements are the same if the first elements of all parts
are. -/
theorem take_flatMap_congr {l : List α} {f f' : α → List β} {n : Nat}
    (h : ∀ a ∈ l, (f a).take n = (f' a).take n) : (l.flatMap f).take n = (l.flatMap f').take n := by
  induction l generalizing n with
  | nil => rfl
  | cons a rest ih =>
    have ha := h a (by simp)
    have hlength := congrArg List.length ha
    rw [List.length_take, List.length_take] at hlength
    rw [List.flatMap_cons, List.flatMap_cons, List.take_append, List.take_append, ha]
    have hrest : (rest.flatMap f).take (n - (f a).length) =
        (rest.flatMap f').take (n - (f a).length) := by
      refine ih fun b hb => ?_
      have hb' := congrArg (List.take (n - (f a).length)) (h b (by simp [hb]))
      rwa [List.take_take, List.take_take, Nat.min_eq_left (Nat.sub_le _ _)] at hb'
    have hsame : n - (f a).length = n - (f' a).length := by omega
    rw [hrest, hsame]

/-- What later elements add is beyond the bound, if each adds something. -/
theorem take_flatMap_take {l : List α} {f : α → List β} (hf : ∀ a ∈ l, f a ≠ []) (n : Nat) :
    ((l.take n).flatMap f).take n = (l.flatMap f).take n := by
  by_cases hle : l.length ≤ n
  · rw [List.take_of_length_le hle]
  · have hlength {front : List α} (hfront : ∀ a ∈ front, f a ≠ []) :
        front.length ≤ (front.flatMap f).length := by
      induction front with
      | nil => simp
      | cons a rest ih =>
        have hpos := List.length_pos_iff.2 (hfront a (by simp))
        have hrest := ih fun b hb => hfront b (by simp [hb])
        rw [List.flatMap_cons, List.length_append, List.length_cons]
        omega
    have hfull : n ≤ ((l.take n).flatMap f).length := by
      have htaken := hlength fun a (ha : a ∈ l.take n) => hf a (List.mem_of_mem_take ha)
      rw [List.length_take] at htaken
      omega
    conv => rhs; rw [← List.take_append_drop n l]
    rw [List.flatMap_append, List.take_append_of_le_length hfull]

/-- The first pairs are pairs of first elements. -/
theorem take_pairs {γ : Type} (l : List α) (r : List β) (f : α → β → γ) (n : Nat) :
    ((l.take n).flatMap fun a => (r.take n).map (f a)).take n =
      (l.flatMap fun a => r.map (f a)).take n := by
  have hinner : ((l.take n).flatMap fun a => (r.take n).map (f a)).take n =
      ((l.take n).flatMap fun a => r.map (f a)).take n :=
    take_flatMap_congr fun a _ => by rw [List.map_take, List.take_take, Nat.min_self]
  rw [hinner]
  by_cases hr : r = []
  · have hnil (front : List α) : (front.flatMap fun a => r.map (f a)) = [] :=
      List.flatMap_eq_nil_iff.2 fun a _ => by rw [hr, List.map_nil]
    rw [hnil, hnil]
  · exact take_flatMap_take (fun a _ => by simpa using hr) n

private theorem firstBy_append_of_subset {κ : Type} [DecidableEq κ] {key : α → κ} {l r : List α}
    (h : ∀ b ∈ r, key b ∈ l.map key) : firstBy key (l ++ r) = firstBy key l := by
  rw [firstBy_append, List.filter_eq_nil_iff.2, List.append_nil]
  intro b hb
  simpa using h b (mem_of_mem_firstBy hb)

end

variable {g : Grammar} {lex : Lexicon} {tokens : List String} {limit : Option Nat} {j : Nat}
  {item waiting done : Item}

/-- An item is reached when an item that waited for a category is moved over a complete one. -/
structure Way (g : Grammar) (lex : Lexicon) (tokens : List String) (j : Nat)
    (item waiting done : Item) : Prop where
  waiting_mem : waiting ∈ (Chart.build g lex tokens).column done.origin.toNat
  done_mem : done ∈ (Chart.build g lex tokens).column j
  isAt : waiting.isAt item.rule (item.dot - 1) item.origin = true
  complete : done.next? = none
  last : item.rule.rhs[item.dot.toNat - 1]? = some done.rule.lhs

/-- A partial derivation that goes on with the tree of a complete item. -/
def joined (done : Item) (p q : Partial) : Partial :=
  p.extend (q.close done).tree (q.close done).key

/-- The edges of an item before whose dot a category stands are exactly its ways to finished items. -/
theorem mem_edges_iff_way (hitem : item ∈ (Chart.build g lex tokens).column j) (hdot : item.dot ≠ 0)
    {s : Symbol} (hs : item.rule.rhs[item.dot.toNat - 1]? = some s) (hcategory : s.isCategory = true)
    {e : Edge} : e ∈ (Chart.build g lex tokens).edgesOf item.id ↔
      ∃ waiting done, Way g lex tokens j item waiting done ∧ e = Chart.childEdge waiting done := by
  rw [(Chart.build_edges_child g lex tokens hitem hdot hs hcategory).2]
  constructor
  · rintro ⟨m, waiting, hwaiting, done, hdone, hat, hcomplete, rfl, horigin, rfl⟩
    refine ⟨waiting, done, ⟨?_, hdone, hat, hcomplete, hs⟩, rfl⟩
    rwa [horigin, Int.toNat_natCast]
  · rintro ⟨waiting, done, ⟨hwaiting, hdone, hat, hcomplete, hlast⟩, rfl⟩
    have hnonneg := (Chart.build_sound g lex tokens j done hdone).origin_nonneg
    exact ⟨done.origin.toNat, waiting, hwaiting, done, hdone, hat, hcomplete,
      Option.some.inj (hlast.symm.trans hs), by omega, rfl⟩

/-- A row before a way and a row of the finished item at its end make up a row. -/
theorem Way.row (h : Way g lex tokens j item waiting done)
    (hitem : item ∈ (Chart.build g lex tokens).column j) (hdot : item.dot ≠ 0) {p q : Partial}
    (hp : p.Row g lex tokens done.origin.toNat waiting) (hq : q.Row g lex tokens j done) :
    (joined done p q).Row g lex tokens j item := by
  have hvalid := Chart.build_sound g lex tokens j done h.done_mem
  obtain ⟨s, hs, _, hsplit⟩ := (Chart.build_sound g lex tokens j item hitem).exists_last hdot
  obtain rfl := Option.some.inj (h.last.symm.trans hs)
  exact hp.join h.isAt hsplit hq hvalid h.complete (Int.toNat_of_nonneg hvalid.origin_nonneg).symm

/-- The tree of a complete item tells the item, and its form the form of what is below. -/
theorem eq_of_close_bare {done' : Item} (hdone : done ∈ (Chart.build g lex tokens).column j)
    (hdone' : done' ∈ (Chart.build g lex tokens).column j) (hcomplete : done.next? = none)
    (hcomplete' : done'.next? = none) {q q' : Partial} (hq : q.Row g lex tokens j done)
    (hq' : q'.Row g lex tokens j done')
    (h : (q.close done).tree.bare = (q'.close done').tree.bare) : done = done' ∧ q.key = q'.key := by
  have hvalid := Chart.build_sound g lex tokens j done hdone
  have hvalid' := Chart.build_sound g lex tokens j done' hdone'
  rw [(hq.close hvalid hcomplete).1, (hq'.close hvalid' hcomplete').1, bare_branch, bare_branch] at h
  have hlhs : done.rule.lhs = done'.rule.lhs := congrArg symbol h
  have hinner : q.children.map bare = q'.children.map bare := congrArg children h
  have horigin : done.origin = done'.origin := (Prod.mk.inj (congrArg span h)).1
  have hrhs : done.rule.rhs = done'.rule.rhs := by
    rw [← hq.symbols_of_complete hvalid hcomplete, ← hq'.symbols_of_complete hvalid' hcomplete',
      ← map_symbol_bare, hinner, map_symbol_bare]
  constructor
  · refine (Chart.build_coherent g lex tokens).eq_of_isAt hdone hdone'
      (Item.isAt_iff.2 ⟨?_, horigin, hlhs, hrhs⟩)
    have hlength := hvalid.dot_eq_of_complete hcomplete
    have hlength' := hvalid'.dot_eq_of_complete hcomplete'
    have hnonneg := hvalid.dot_nonneg
    have hnonneg' := hvalid'.dot_nonneg
    rw [hrhs] at hlength
    omega
  · rw [hq.key, hq'.key, ← rowKey_bare, hinner, rowKey_bare]

/-- The form of a partial derivation tells along which way it was found, and from what. -/
theorem Way.eq_of_key (hclean : ∀ rule ∈ g.rules, ∀ s ∈ rule.rhs, Spaceless s)
    {waiting' done' : Item} (h : Way g lex tokens j item waiting done)
    (h' : Way g lex tokens j item waiting' done') (hitem : item ∈ (Chart.build g lex tokens).column j)
    (hdot : item.dot ≠ 0) {p q p' q' : Partial}
    (hp : p.Row g lex tokens done.origin.toNat waiting) (hq : q.Row g lex tokens j done)
    (hp' : p'.Row g lex tokens done'.origin.toNat waiting') (hq' : q'.Row g lex tokens j done')
    (hkey : (joined done p q).key = (joined done' p' q').key) :
    waiting = waiting' ∧ done = done' ∧ p.key = p'.key ∧ q.key = q'.key := by
  have hrow := h.row hitem hdot hp hq
  have hrow' := h'.row hitem hdot hp' hq'
  have hspaceless : ∀ t ∈ (joined done p q).children, Spaceless t.symbol := by
    intro t ht
    have hsymbol : t.symbol ∈ item.rule.rhs.take item.dot.toNat :=
      hrow.symbols ▸ List.mem_map.2 ⟨t, ht, rfl⟩
    exact hclean _ (Chart.build_sound g lex tokens j item hitem).rule _ (List.mem_of_mem_take hsymbol)
  have hbares := map_bare_of_rowKey hclean hrow.derivation hrow'.derivation
    (hrow.symbols.trans hrow'.symbols.symm) hspaceless hrow.span hrow'.span
    (by rw [← hrow.key, ← hrow'.key, hkey])
  simp only [joined, Partial.extend, List.map_append, List.map_singleton] at hbares
  obtain ⟨hfront, hlast⟩ := List.append_inj' hbares rfl
  obtain ⟨rfl, hqkey⟩ := eq_of_close_bare h.done_mem h'.done_mem h.complete h'.complete hq hq'
    (List.cons.inj hlast).1
  refine ⟨(Chart.build_coherent g lex tokens).eq_of_isAt_isAt h.waiting_mem h'.waiting_mem h.isAt h'.isAt,
    rfl, ?_, hqkey⟩
  rw [hp.key, hp'.key, ← rowKey_bare, hfront, rowKey_bare]

/-- Along a way, each row before it is joined with each row of the finished item. -/
theorem along_way (h : Way g lex tokens j item waiting done) {alts : Item → List Partial}
    (hstop : ∀ p ∈ alts waiting, p.stop = done.origin) :
    along (Chart.build g lex tokens) alts item (Chart.childEdge waiting done) =
      (alts waiting).flatMap fun p => (alts done).map (joined done p) := by
  rw [along_childEdge (Chart.build_coherent g lex tokens) h.waiting_mem h.done_mem]
  refine List.flatMap_congr fun p hp => ?_
  rw [grown, List.filter_eq_self.2, List.map_map]
  · rfl
  · intro k hk
    obtain ⟨q, _, rfl⟩ := List.mem_map.1 hk
    rw [hstop p hp]
    exact beq_self_eq_true _

section

variable {trail : List (Nat × Item)}

/-- The rows before a way end where the finished item begins. -/
theorem stop_of_mem (htrail : ∀ x ∈ trail, x.2 ∈ (Chart.build g lex tokens).column x.1)
    (h : Way g lex tokens j item waiting done) {p : Partial}
    (hp : p ∈ alternatives (Chart.build g lex tokens) limit (ids trail) waiting) :
    p.stop = done.origin := by
  have hnonneg := (Chart.build_sound g lex tokens j done h.done_mem).origin_nonneg
  rw [(row_of_mem htrail h.waiting_mem hp).1.stop, Int.toNat_of_nonneg hnonneg]

/-- No form is met twice along the edges over complete items. -/
theorem nodup_map_along (hclean : ∀ rule ∈ g.rules, ∀ s ∈ rule.rhs, Spaceless s)
    (htrail : ∀ x ∈ trail, x.2 ∈ (Chart.build g lex tokens).column x.1)
    (hitem : item ∈ (Chart.build g lex tokens).column j) (hdot : item.dot ≠ 0) {s : Symbol}
    (hs : item.rule.rhs[item.dot.toNat - 1]? = some s) (hcategory : s.isCategory = true) :
    ((((Chart.build g lex tokens).edgesOf item.id).flatMap (along (Chart.build g lex tokens)
      (alternatives (Chart.build g lex tokens) limit (ids trail)) item)).map Partial.key).Nodup := by
  have hways {e : Edge} : e ∈ (Chart.build g lex tokens).edgesOf item.id ↔ _ :=
    mem_edges_iff_way hitem hdot hs hcategory
  have hkeys (other : Item) := nodup_map_alternatives (Chart.build g lex tokens) limit (ids trail) other
  -- A form that is met along two ways is met along one, from the same partial derivations.
  have hsame {waiting done waiting' done' : Item} (h : Way g lex tokens j item waiting done)
      (h' : Way g lex tokens j item waiting' done') {p q p' q' : Partial}
      (hp : p ∈ alternatives (Chart.build g lex tokens) limit (ids trail) waiting)
      (hq : q ∈ alternatives (Chart.build g lex tokens) limit (ids trail) done)
      (hp' : p' ∈ alternatives (Chart.build g lex tokens) limit (ids trail) waiting')
      (hq' : q' ∈ alternatives (Chart.build g lex tokens) limit (ids trail) done')
      (hkey : (joined done p q).key = (joined done' p' q').key) :
      waiting = waiting' ∧ done = done' ∧ p = p' ∧ q = q' := by
    obtain ⟨rfl, rfl, hpkey, hqkey⟩ := h.eq_of_key hclean h' hitem hdot
      (row_of_mem htrail h.waiting_mem hp).1 (row_of_mem htrail h.done_mem hq).1
      (row_of_mem htrail h'.waiting_mem hp').1 (row_of_mem htrail h'.done_mem hq').1 hkey
    exact ⟨rfl, rfl, List.inj_on_of_nodup_map (hkeys _) hp hp' hpkey,
      List.inj_on_of_nodup_map (hkeys _) hq hq' hqkey⟩
  rw [List.map_flatMap, List.nodup_flatMap]
  refine ⟨fun e he => ?_, ?_⟩
  · obtain ⟨waiting, done, h, rfl⟩ := hways.1 he
    rw [along_way h fun p hp => stop_of_mem htrail h hp, List.map_flatMap, List.nodup_flatMap]
    refine ⟨fun p hp => ?_, ?_⟩
    · rw [List.map_map]
      refine ((hkeys done).of_map).map_on fun q hq q' hq' hkey => ?_
      exact (hsame h h hp hq hp hq' hkey).2.2.2
    · refine ((hkeys waiting).of_map).imp_of_mem fun {p p'} hp hp' hne k hk hk' => ?_
      obtain ⟨x, hx, rfl⟩ := List.mem_map.1 hk
      obtain ⟨x', hx', hkey⟩ := List.mem_map.1 hk'
      obtain ⟨q, hq, rfl⟩ := List.mem_map.1 hx
      obtain ⟨q', hq', rfl⟩ := List.mem_map.1 hx'
      exact hne (hsame h h hp hq hp' hq' hkey.symm).2.2.1
  · refine (Chart.build_edges_child g lex tokens hitem hdot hs hcategory).1.imp_of_mem
      fun {e e'} he he' hne k hk hk' => ?_
    obtain ⟨waiting, done, h, rfl⟩ := hways.1 he
    obtain ⟨waiting', done', h', rfl⟩ := hways.1 he'
    obtain ⟨x, hx, rfl⟩ := List.mem_map.1 hk
    obtain ⟨x', hx', hkey⟩ := List.mem_map.1 hk'
    rw [along_way h fun p hp => stop_of_mem htrail h hp] at hx
    rw [along_way h' fun p hp => stop_of_mem htrail h' hp] at hx'
    obtain ⟨p, hp, hx⟩ := List.mem_flatMap.1 hx
    obtain ⟨q, hq, rfl⟩ := List.mem_map.1 hx
    obtain ⟨p', hp', hx'⟩ := List.mem_flatMap.1 hx'
    obtain ⟨q', hq', rfl⟩ := List.mem_map.1 hx'
    obtain ⟨rfl, rfl, _⟩ := hsame h h' hp hq hp' hq' hkey.symm
    exact hne rfl

/-- Along the edges over a word, a form is met first along the first of them. -/
theorem firstBy_along_word {waiting : Item} {m : Nat}
    (hwaiting : waiting ∈ (Chart.build g lex tokens).column m) {s : Symbol}
    (hs : item.symbolAt? (item.dot - 1) = some s) (w : String) {r : Reading} {rest : List Reading}
    {alts : Item → List Partial} (hnodup : ((alts waiting).map Partial.key).Nodup) :
    firstBy Partial.key (((r :: rest).map (Chart.wordEdge waiting w)).flatMap
        (along (Chart.build g lex tokens) alts item)) =
      (alts waiting).map fun p =>
        p.extend (.leaf s (some w) (p.stop, p.stop + 1) (some r)) (leafKey s w) := by
  have hc := Chart.build_coherent g lex tokens
  have halong (r' : Reading) :
      along (Chart.build g lex tokens) alts item (Chart.wordEdge waiting w r') = _ :=
    along_wordEdge hc hwaiting hs w r'
  have hkeys (r' : Reading) :
      (along (Chart.build g lex tokens) alts item (Chart.wordEdge waiting w r')).map Partial.key =
        (alts waiting).map fun p => joinKey p.key (leafKey s w) := by
    rw [halong, List.map_map]
    rfl
  rw [List.map_cons, List.flatMap_cons, firstBy_append_of_subset, firstBy_eq_self, halong]
  · rw [hkeys]
    have hmap : (alts waiting).map (fun p => joinKey p.key (leafKey s w)) =
        ((alts waiting).map Partial.key).map (joinKey · (leafKey s w)) := by
      rw [List.map_map]
      rfl
    rw [hmap]
    exact hnodup.map fun _ _ => joinKey_left_inj
  · intro x hx
    obtain ⟨e, he, hx⟩ := List.mem_flatMap.1 hx
    obtain ⟨r', _, rfl⟩ := List.mem_map.1 he
    rw [hkeys, ← hkeys r']
    exact List.mem_map.2 ⟨x, hx, rfl⟩

/-- The alternatives of an item that has found a tag last go on from one item, with the first reading. -/
theorem alternatives_word (hitem : item ∈ (Chart.build g lex tokens).column j)
    (hoff : item.id ∉ ids trail) (hdot : item.dot ≠ 0) {s : Symbol}
    (hs : item.rule.rhs[item.dot.toNat - 1]? = some s) (hcategory : s.isCategory = false) :
    ∃ m w r, j = m + 1 ∧ lex.firstReading? w s = some r ∧
      ∃ waiting ∈ (Chart.build g lex tokens).column m,
      waiting.isAt item.rule (item.dot - 1) item.origin = true ∧
      ∀ limit, alternatives (Chart.build g lex tokens) limit (ids trail) item =
        bounded limit ((alternatives (Chart.build g lex tokens) limit (item.id :: ids trail) waiting).map
          fun p => p.extend (.leaf s (some w) (p.stop, p.stop + 1) (some r)) (leafKey s w)) := by
  obtain ⟨s, hlast, hsymbol, _⟩ := (Chart.build_sound g lex tokens j item hitem).exists_last hdot
  obtain rfl := Option.some.inj (hlast.symm.trans hs)
  obtain ⟨m, w, hj, _, ⟨_, r, hr, hpos⟩, waiting, hwaiting, hat, hedges⟩ :=
    Chart.build_edges_word g lex tokens hitem hdot hs hcategory
  have hsome : r ∈ (lex.lookup w).filter (·.pos == s) := List.mem_filter.2 ⟨hr, beq_iff_eq.2 hpos⟩
  obtain ⟨first, rest, hreadings⟩ := List.exists_cons_of_ne_nil (List.ne_nil_of_mem hsome)
  have hfirst : lex.firstReading? w s = some first := by
    rw [Lexicon.firstReading?, ← List.head?_filter, hreadings, List.head?_cons]
  refine ⟨m, w, first, hj, hfirst, waiting, hwaiting, hat, fun limit => ?_⟩
  rw [alternatives_eq ((Chart.build_coherent g lex tokens).id_lt_items hitem) hoff hdot, hedges, hreadings,
    firstBy_along_word hwaiting hsymbol w (nodup_map_alternatives _ _ _ _)]

/-- The alternatives of an item that has found a category last lie along its edges, each once. -/
theorem alternatives_category (hclean : ∀ rule ∈ g.rules, ∀ s ∈ rule.rhs, Spaceless s)
    (htrail : ∀ x ∈ trail, x.2 ∈ (Chart.build g lex tokens).column x.1)
    (hitem : item ∈ (Chart.build g lex tokens).column j) (hoff : item.id ∉ ids trail)
    (hdot : item.dot ≠ 0) {s : Symbol} (hs : item.rule.rhs[item.dot.toNat - 1]? = some s)
    (hcategory : s.isCategory = true) (limit : Option Nat) :
    alternatives (Chart.build g lex tokens) limit (ids trail) item =
      bounded limit (((Chart.build g lex tokens).edgesOf item.id).flatMap
        (along (Chart.build g lex tokens)
          (alternatives (Chart.build g lex tokens) limit (ids ((j, item) :: trail))) item)) := by
  have htrail' : ∀ x ∈ (j, item) :: trail, x.2 ∈ (Chart.build g lex tokens).column x.1 :=
    List.forall_mem_cons.2 ⟨hitem, htrail⟩
  rw [alternatives_eq ((Chart.build_coherent g lex tokens).id_lt_items hitem) hoff hdot, ← ids_cons j,
    firstBy_eq_self (nodup_map_along hclean htrail' hitem hdot hs hcategory)]

/-- The alternatives up to a bound are the first of all alternatives. -/
theorem alternatives_eq_take (hclean : ∀ rule ∈ g.rules, ∀ s ∈ rule.rhs, Spaceless s) {n : Nat}
    (hn : 0 < n) (htrail : ∀ x ∈ trail, x.2 ∈ (Chart.build g lex tokens).column x.1)
    (hitem : item ∈ (Chart.build g lex tokens).column j) :
    alternatives (Chart.build g lex tokens) (some n) (ids trail) item =
      (alternatives (Chart.build g lex tokens) none (ids trail) item).take n := by
  have hc := Chart.build_coherent g lex tokens
  induction hsize : (offPath (Chart.build g lex tokens) (ids trail)).length using Nat.strongRecOn
    generalizing trail j item with
  | ind size ih =>
    subst hsize
    have hlt := hc.id_lt_items hitem
    have hvalid := Chart.build_sound g lex tokens j item hitem
    by_cases hmem : item.id ∈ ids trail
    · rw [alternatives_of_mem hmem, alternatives_of_mem hmem, List.take_nil]
    by_cases hdot : item.dot = 0
    · rw [alternatives_start hlt hmem hdot, alternatives_start hlt hmem hdot,
        List.take_of_length_le (show [start item].length ≤ n from hn)]
    have hshorter := offPath_cons_lt hlt hmem
    have htrail' : ∀ x ∈ (j, item) :: trail, x.2 ∈ (Chart.build g lex tokens).column x.1 :=
      List.forall_mem_cons.2 ⟨hitem, htrail⟩
    have hbelow {k : Nat} {other : Item} (hother : other ∈ (Chart.build g lex tokens).column k) :
        alternatives (Chart.build g lex tokens) (some n) (item.id :: ids trail) other =
          (alternatives (Chart.build g lex tokens) none (item.id :: ids trail) other).take n :=
      ih _ hshorter htrail' hother rfl
    obtain ⟨s, hs, _⟩ := hvalid.exists_last hdot
    cases hcategory : s.isCategory with
    | false =>
      obtain ⟨m, w, r, _, _, waiting, hwaiting, _, heq⟩ :=
        alternatives_word hitem hmem hdot hs hcategory
      rw [heq, heq, bounded, bounded, hbelow hwaiting, List.map_take, List.take_take, Nat.min_self]
    | true =>
      rw [alternatives_category hclean htrail hitem hmem hdot hs hcategory,
        alternatives_category hclean htrail hitem hmem hdot hs hcategory, bounded, bounded]
      refine take_flatMap_congr fun e he => ?_
      obtain ⟨waiting, done, h, rfl⟩ := (mem_edges_iff_way hitem hdot hs hcategory).1 he
      have halong (limit : Option Nat) : along (Chart.build g lex tokens)
          (alternatives (Chart.build g lex tokens) limit (ids ((j, item) :: trail))) item
            (Chart.childEdge waiting done) = _ :=
        along_way h fun p hp => stop_of_mem htrail' h hp
      rw [halong, halong, ids_cons, hbelow h.waiting_mem, hbelow h.done_mem]
      exact take_pairs _ _ _ _

end

end Forest

end Earley
