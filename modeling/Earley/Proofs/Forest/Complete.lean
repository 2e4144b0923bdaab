import Earley.Proofs.Forest.Sound

namespace Earley.Forest

open Grammar Earley.Tree

variable {g : Grammar} {lex : Lexicon} {tokens : List String} {limit : Option Nat}

/-- Something of each form is left where nothing is bounded, and something at all otherwise. -/
theorem exists_mem_bounded (hlimit : ∀ m, limit = some m → 0 < m) {l : List Partial} {p : Partial}
    (hp : p ∈ l) :
    ∃ q ∈ bounded limit (firstBy Partial.key l), limit = none → q.key = p.key := by
  cases limit with
  | none =>
    have hsome : ∃ q ∈ firstBy Partial.key l, q.key = p.key := exists_mem_firstBy hp
    obtain ⟨q, hq, hkey⟩ := hsome
    exact ⟨q, hq, fun _ => hkey⟩
  | some m =>
    have hne : firstBy Partial.key l ≠ [] := firstBy_ne_nil (List.ne_nil_of_mem hp)
    obtain ⟨q, rest, heq⟩ := List.exists_cons_of_ne_nil hne
    have hm := hlimit m rfl
    refine ⟨q, ?_, fun h => by cases h⟩
    obtain ⟨m, rfl⟩ := Nat.exists_eq_add_of_lt hm
    simp [bounded, heq]

/-- The item that waits for the last tree of a row. -/
theorem exists_waiting {j : Nat} {item : Item} (hitem : item ∈ (Chart.build g lex tokens).column j)
    (hdot : item.dot ≠ 0) {front : List Tree} {m : Nat}
    (hsymbols : front.map symbol = item.rule.rhs.take (item.dot.toNat - 1))
    (hfront : ∀ t ∈ front, Derivation g lex tokens t) (hspan : Adjoining item.origin front m) :
    ∃ waiting ∈ (Chart.build g lex tokens).column m,
      waiting.isAt item.rule (item.dot - 1) item.origin = true := by
  have hvalid := Chart.build_sound g lex tokens j item hitem
  obtain ⟨k, hk⟩ := Int.eq_ofNat_of_zero_le hvalid.origin_nonneg
  have hstart := Nat.le_trans hvalid.origin_le hvalid.le_length
  rw [hk, Int.toNat_natCast] at hstart
  rw [hk] at hspan
  obtain ⟨m', hm, hcovers⟩ := Derivation.covers_all hfront hstart hspan
  obtain rfl : m' = m := by omega
  rw [hsymbols] at hcovers
  exact Chart.build_waiting hitem hdot (by rwa [hk, Int.toNat_natCast])

/-- The complete item of a tree whose symbol is waited for. -/
theorem exists_done {m j : Nat} {waiting : Item}
    (hwaiting : waiting ∈ (Chart.build g lex tokens).column m) {t : Tree}
    (hnext : waiting.next? = some t.symbol) (ht : Derivation g lex tokens t)
    (hcategory : t.symbol.isCategory = true) (hspan : t.span = ((m : Int), (j : Int))) :
    ∃ done ∈ (Chart.build g lex tokens).column j, done.next? = none ∧ done.origin = m ∧
      t = .branch done.rule.lhs t.children (m, j) ∧ t.children.map symbol = done.rule.rhs ∧
        Adjoining m t.children j ∧ ∀ c ∈ t.children, Derivation g lex tokens c := by
  obtain ⟨rule, hrule, i, k, heq, hrhs, hinner, hchildren⟩ := ht.exists_rule hcategory
  have hsymbol : t.symbol = rule.lhs := congrArg symbol heq
  have hspan' : t.span = (i, k) := congrArg span heq
  obtain ⟨rfl, rfl⟩ := Prod.mk.inj (hspan.symm.trans hspan')
  have hvalid := Chart.build_sound g lex tokens m waiting hwaiting
  obtain ⟨first, hfirst, hfirstAt⟩ :=
    (Chart.build_settled g lex tokens hwaiting).predict rule hrule (hnext.trans (congrArg some hsymbol))
  obtain ⟨_, horigin, hlhs, _⟩ := Item.isAt_iff.1 hfirstAt
  have hopens := (Chart.build_sound g lex tokens m first hfirst).opens
  rw [horigin, hlhs, Int.toNat_natCast] at hopens
  obtain ⟨k, hk, hcovers⟩ := Derivation.covers_all hchildren hvalid.le_length hinner
  obtain rfl : k = j := by omega
  rw [hrhs] at hcovers
  obtain ⟨done, hdone, hcomplete, hdlhs, hdrhs, hdorigin⟩ := Chart.build_done hrule hcovers hopens
  exact ⟨done, hdone, hcomplete, hdorigin, by rwa [hdlhs], hrhs.trans hdrhs.symm, hinner, hchildren⟩

/-- The complete item of a tree that does nothing of what is done above is not above. -/
theorem not_mem_ids_of_avoids {trail : List (Nat × Item)}
    (htrail : ∀ x ∈ trail, x.2 ∈ (Chart.build g lex tokens).column x.1) {j : Nat} {done : Item}
    (hdone : done ∈ (Chart.build g lex tokens).column j) (hcomplete : done.next? = none) {t : Tree}
    (hexpansion : t.expansion = (done.rule.lhs, done.rule.rhs, done.origin, (j : Int)))
    (havoids : t.Avoids (above trail)) :
    done.id ∉ ids trail ∧ ∀ c ∈ t.children, c.Avoids (above ((j, done) :: trail)) := by
  obtain ⟨hnew, hbelow⟩ := avoids_iff.1 havoids
  rw [hexpansion] at hnew hbelow
  constructor
  · intro hmem
    exact hnew ((mem_above_iff htrail hdone hcomplete).2 hmem)
  · rw [above_cons_of_complete hcomplete]
    exact hbelow

/-- An item is on no path through later columns. -/
theorem not_mem_ids_of_lt {m : Nat} {item : Item} (hitem : item ∈ (Chart.build g lex tokens).column m)
    {trail : List (Nat × Item)}
    (htrail : ∀ x ∈ trail, x.2 ∈ (Chart.build g lex tokens).column x.1 ∧ m < x.1) :
    item.id ∉ ids trail := by
  intro hmem
  have hc := Chart.build_coherent g lex tokens
  obtain ⟨x, hx, hid⟩ := List.mem_map.1 hmem
  obtain ⟨hother, hlt⟩ := htrail x hx
  have hsame := hc.eq_of_id hother hitem hid
  have := hc.column_unique hother (hsame ▸ hitem)
  omega

section

variable {m j : Nat} {item waiting : Item} {alts : Item → List Partial} {p : Partial}

/-- The row before a leaf goes on along one of the edges. -/
theorem exists_along_word (hitem : item ∈ (Chart.build g lex tokens).column j) (hdot : item.dot ≠ 0)
    {t : Tree} (hs : item.rule.rhs[item.dot.toNat - 1]? = some t.symbol)
    (hwaiting : waiting ∈ (Chart.build g lex tokens).column m)
    (hat : waiting.isAt item.rule (item.dot - 1) item.origin = true) (ht : Derivation g lex tokens t)
    (htag : t.symbol.isCategory = false) (hspan : t.span = (↑m, ↑j)) (hp : p ∈ alts waiting) :
    ∃ x ∈ ((Chart.build g lex tokens).edgesOf item.id).flatMap
      (along (Chart.build g lex tokens) alts item), x.key = joinKey p.key t.canonical := by
  have hc := Chart.build_coherent g lex tokens
  obtain ⟨i, w, r, hword, hr, hpos, rfl⟩ := ht.exists_word htag
  obtain ⟨m', w', rfl, hword', _, waiting', hwaiting', hat', hedges⟩ :=
    Chart.build_edges_word g lex tokens hitem hdot hs htag
  obtain ⟨hi, hstop⟩ := by simpa only [span_leaf, Prod.mk.injEq] using hspan
  obtain rfl : i = m := by omega
  obtain rfl : m' = i := by omega
  obtain rfl := Option.some.inj (hword'.symm.trans hword)
  obtain rfl := hc.eq_of_isAt_isAt hwaiting hwaiting' hat hat'
  obtain ⟨s, hs', hsymbol, _⟩ := (Chart.build_sound g lex tokens _ _ hitem).exists_last hdot
  obtain rfl := Option.some.inj (hs.symm.trans hs')
  refine ⟨p.extend (.leaf r.pos (some w') (p.stop, p.stop + 1) (some r)) (leafKey r.pos w'),
    List.mem_flatMap.2 ⟨Chart.wordEdge waiting w' r, ?_, ?_⟩, rfl⟩
  · rw [hedges]
    exact List.mem_map.2 ⟨r, List.mem_filter.2 ⟨hr, by simp⟩, rfl⟩
  · rw [along_wordEdge hc hwaiting hsymbol]
    exact List.mem_map.2 ⟨p, hp, rfl⟩

private theorem mem_along_child (hitem : item ∈ (Chart.build g lex tokens).column j) (hdot : item.dot ≠ 0)
    {done : Item} (hs : item.rule.rhs[item.dot.toNat - 1]? = some done.rule.lhs)
    (hwaiting : waiting ∈ (Chart.build g lex tokens).column m)
    (hat : waiting.isAt item.rule (item.dot - 1) item.origin = true)
    (hdone : done ∈ (Chart.build g lex tokens).column j) (hcomplete : done.next? = none)
    (horigin : done.origin = m) (hp : p ∈ alts waiting) (hstop : p.stop = m) {q : Partial}
    (hq : q ∈ alts done) :
    p.extend (q.close done).tree (q.close done).key ∈
      ((Chart.build g lex tokens).edgesOf item.id).flatMap
        (along (Chart.build g lex tokens) alts item) := by
  have hc := Chart.build_coherent g lex tokens
  have hcategory := isCategory_of_mem (Chart.build_sound g lex tokens j done hdone).rule
  have hedge := ((Chart.build_edges_child g lex tokens hitem hdot hs hcategory).2 _).2
    ⟨m, waiting, hwaiting, done, hdone, hat, hcomplete, rfl, horigin, rfl⟩
  refine List.mem_flatMap.2 ⟨_, hedge, ?_⟩
  rw [along_childEdge hc hwaiting hdone]
  refine List.mem_flatMap.2 ⟨p, hp, mem_grown.2 ⟨_, List.mem_map.2 ⟨q, hq, rfl⟩, ?_, rfl⟩⟩
  exact horigin.trans hstop.symm

end

/-- A row of derivation trees in which nothing is done that is done above is found, or another one
where the alternatives are bounded. -/
theorem exists_alternative (hlimit : ∀ m, limit = some m → 0 < m) {trail : List (Nat × Item)} {j : Nat}
    (htrail : ∀ x ∈ trail, x.2 ∈ (Chart.build g lex tokens).column x.1 ∧ j ≤ x.1) {item : Item}
    (hitem : item ∈ (Chart.build g lex tokens).column j) (hoff : item.id ∉ ids trail) {ts : List Tree}
    (hsymbols : ts.map symbol = item.rule.rhs.take item.dot.toNat) (hspan : Adjoining item.origin ts j)
    (hts : ∀ t ∈ ts, Derivation g lex tokens t)
    (havoids : ∀ t ∈ ts, t.Avoids (above ((j, item) :: trail))) :
    ∃ p ∈ alternatives (Chart.build g lex tokens) limit (ids trail) item,
      limit = none → p.key = rowKey ts := by
  have hc := Chart.build_coherent g lex tokens
  have hsound := Chart.build_sound g lex tokens
  -- Once more on the number of items that are not on the path.
  induction hn : (offPath (Chart.build g lex tokens) (ids trail)).length using Nat.strongRecOn
    generalizing trail j item ts with
  | ind n ih =>
    subst hn
    have hlt := hc.id_lt_items hitem
    have hvalid := hsound j item hitem
    by_cases hdot : item.dot = 0
    · rw [alternatives_start hlt hoff hdot]
      rw [hdot, Int.toNat_zero, List.take_zero] at hsymbols
      obtain rfl := List.map_eq_nil_iff.1 hsymbols
      exact ⟨start item, by simp, fun _ => rfl⟩
    have hpositive : 0 < item.dot := by
      have := hvalid.dot_nonneg
      omega
    have hshorter := offPath_cons_lt hlt hoff
    have htrail' : ∀ x ∈ (j, item) :: trail,
        x.2 ∈ (Chart.build g lex tokens).column x.1 ∧ j ≤ x.1 :=
      List.forall_mem_cons.2 ⟨⟨hitem, Nat.le_refl _⟩, htrail⟩
    -- The last tree of the row, and the item that waits for it.
    obtain ⟨s, hs, hsymbol, hsplit⟩ := hvalid.exists_last hdot
    rw [hsplit] at hsymbols
    obtain ⟨front, last, rfl, hfront, hlast⟩ := List.map_eq_append_iff.1 hsymbols
    obtain ⟨t, rfl, rfl⟩ := List.map_eq_singleton_iff.1 hlast
    obtain ⟨k, hbefore, hstart, hstop⟩ := adjoining_append.1 hspan
    have ht := hts t (by simp)
    have htavoids := havoids t (by simp)
    obtain ⟨m, j', htspan, _⟩ := ht.covers
    have htlt := ht.span_lt
    simp only [Adjoining, htspan] at hstart hstop htlt
    subst hstart
    obtain rfl : j' = j := by omega
    obtain ⟨waiting, hwaiting, hat⟩ :=
      exists_waiting hitem hdot hfront (fun c hc => hts c (by simp [hc])) hbefore
    obtain ⟨hwdot, hworigin, _, hwrhs⟩ := Item.isAt_iff.1 hat
    have hnext := Item.next?_of_isAt hpositive hs hat
    have hlater : ∀ x ∈ (j', item) :: trail,
        x.2 ∈ (Chart.build g lex tokens).column x.1 ∧ m < x.1 := by
      intro x hx
      obtain ⟨hmem, hle⟩ := htrail' x hx
      exact ⟨hmem, by omega⟩
    obtain ⟨p, hp, hpkey⟩ := ih _ hshorter (fun x hx => ⟨(hlater x hx).1, Nat.le_of_lt (hlater x hx).2⟩)
      hwaiting (not_mem_ids_of_lt hwaiting hlater)
      (by rw [hfront, hwrhs]; congr 1; omega) (hworigin ▸ hbefore) (fun c hc => hts c (by simp [hc]))
      (by rw [above_cons_of_next hnext]; exact fun c hc => havoids c (by simp [hc])) rfl
    have hpstop := (row_of_mem (fun x hx => (hlater x hx).1) hwaiting hp).1.stop
    suffices hsuffices : ∃ x ∈ ((Chart.build g lex tokens).edgesOf item.id).flatMap
        (along (Chart.build g lex tokens)
          (alternatives (Chart.build g lex tokens) limit (ids ((j', item) :: trail))) item),
        limit = none → x.key = joinKey p.key t.canonical by
      obtain ⟨x, hx, hxkey⟩ := hsuffices
      obtain ⟨q, hq, hqkey⟩ := exists_mem_bounded hlimit hx
      rw [alternatives_eq hlt hoff hdot]
      refine ⟨q, hq, fun hnone => ?_⟩
      rw [hqkey hnone, hxkey hnone, hpkey hnone, rowKey_append_singleton]
    cases hcategory : t.symbol.isCategory with
    | false =>
      obtain ⟨x, hx, hkey⟩ := exists_along_word hitem hdot hs hwaiting hat ht hcategory htspan hp
      exact ⟨x, hx, fun _ => hkey⟩
    | true =>
      obtain ⟨done, hdone, hcomplete, hdorigin, heq, hdrhs, hinner, hchildren⟩ :=
        exists_done hwaiting hnext ht hcategory htspan
      have hdlhs : t.symbol = done.rule.lhs := congrArg symbol heq
      have hexpansion : t.expansion = (done.rule.lhs, done.rule.rhs, done.origin, (j' : Int)) := by
        rw [expansion, hdlhs, hdrhs, htspan, hdorigin]
      obtain ⟨hdoneOff, hbelow⟩ :=
        not_mem_ids_of_avoids (fun x hx => (htrail' x hx).1) hdone hcomplete hexpansion htavoids
      have hdone' := hsound j' done hdone
      obtain ⟨q, hq, hqkey⟩ := ih _ hshorter htrail' hdone hdoneOff
        (by rw [hdrhs, hdone'.dot_eq_of_complete hcomplete, List.take_length]) (hdorigin ▸ hinner)
        hchildren hbelow rfl
      refine ⟨_, mem_along_child hitem hdot (by rw [hs, hdlhs]) hwaiting hat hdone hcomplete hdorigin hp
        hpstop hq, fun hnone => ?_⟩
      rw [extend_key, Partial.close, hqkey hnone, heq, children_branch,
        canonical_branch _ (Derivation.children_ne_nil hdone'.rule hdrhs)]

end Earley.Forest
