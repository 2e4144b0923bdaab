import Earley.Proofs.Chart.Contents

namespace Earley

open Grammar

namespace Chart

variable {g : Grammar} {lex : Lexicon} {tokens : List String} {c : Chart}

/-- The edges of the item of a column with the given rule, dot and origin. -/
def edgesAt (c : Chart) (j : Nat) (rule : Rule) (dot origin : Int) : List Edge :=
  match (c.column j).find? (·.isAt rule dot origin) with
  | some item => c.edgesOf item.id
  | none => []

private theorem Coherent.edgesAt_eq (hc : c.Coherent) {j : Nat} {item : Item} (hmem : item ∈ c.column j)
    {rule : Rule} {dot origin : Int} (hat : item.isAt rule dot origin = true) :
    c.edgesAt j rule dot origin = c.edgesOf item.id := by
  unfold edgesAt
  cases hfind : (c.column j).find? (·.isAt rule dot origin) with
  | none => exact absurd hat (Array.find?_eq_none.1 hfind item hmem)
  | some found =>
    have hfoundAt : found.isAt rule dot origin = true :=
      Array.find?_some (p := fun other : Item => other.isAt rule dot origin) hfind
    rw [hc.eq_of_isAt_isAt (Array.mem_of_find?_eq_some hfind) hmem hfoundAt hat]

private theorem edgesAt_of_not_has {j : Nat} {rule : Rule} {dot origin : Int}
    (h : ¬ c.Has j rule dot origin) : c.edgesAt j rule dot origin = [] := by
  have hnone : (c.column j).find? (·.isAt rule dot origin) = none :=
    Array.find?_eq_none.2 fun item hmem hat => h ⟨item, hmem, hat⟩
  rw [edgesAt, hnone]

/-- A new item has no edges. -/
theorem edgesAt_insert (hc : c.Coherent) (hedges : c.edges.size ≤ c.items.size) {k : Nat}
    (hk : k < c.columns.size) (rule' : Rule) (dot' origin' : Int) (j : Nat) (rule : Rule) (dot origin : Int) :
    (c.insert k rule' dot' origin').2.edgesAt j rule dot origin = c.edgesAt j rule dot origin := by
  obtain ⟨hc', hext, hmem, hat⟩ := insert_spec hc (Nat.zero_le k) hk rule' dot' origin'
  rcases insert_cases hc k rule' dot' origin' with ⟨_, _, _, heq⟩ | ⟨hnew, heq⟩
  · rw [heq]
  · rw [heq] at hc' hext ⊢
    by_cases hhas : c.Has j rule dot origin
    · obtain ⟨item, hitem, hitemAt⟩ := hhas
      rw [hc'.edgesAt_eq (hext.mem hitem) hitemAt, hc.edgesAt_eq hitem hitemAt, edgesOf_pushItem]
    · rw [edgesAt_of_not_has hhas]
      by_cases hhas' : (c.pushItem k (c.freshItem rule' dot' origin')).Has j rule dot origin
      · obtain ⟨item, hitem, hitemAt⟩ := hhas'
        rw [hc'.edgesAt_eq hitem hitemAt, edgesOf_pushItem]
        rw [column_pushItem c k j _ hk] at hitem
        have hfresh : item = c.freshItem rule' dot' origin' := by
          split at hitem
          · exact (Array.mem_push.1 hitem).resolve_left fun hold => hhas ⟨item, hold, hitemAt⟩
          · exact absurd ⟨item, hitem, hitemAt⟩ hhas
        simp [hfresh, freshItem, edgesOf, Array.getElem?_eq_none hedges]
      · exact edgesAt_of_not_has hhas'

/-- An advance adds its edge to the item that it moves to, and to no other. -/
theorem edgesAt_advance (hc : c.Coherent) (hedges : c.edges.size ≤ c.items.size) {k : Nat}
    (hk : k < c.columns.size) (item : Item) (edge : Edge) (j : Nat) (rule : Rule) (dot origin : Int) :
    (c.advance k item edge).edgesAt j rule dot origin = c.edgesAt j rule dot origin ++
      if j = k ∧ item.isAt rule (dot - 1) origin = true then [edge] else [] := by
  obtain ⟨hc', _, hmem, hat⟩ :=
    insert_spec hc (Nat.zero_le k) hk item.rule (item.dot + 1) item.origin
  have hkeep := edgesAt_insert hc hedges hk item.rule (item.dot + 1) item.origin j rule dot origin
  obtain ⟨hdot, horigin, hlhs, hrhs⟩ := Item.isAt_iff.1 hat
  rw [advance_eq, ← hkeep]
  generalize (c.insert k item.rule (item.dot + 1) item.origin).2 = d at hc' hmem hkeep ⊢
  generalize (c.insert k item.rule (item.dot + 1) item.origin).1 = next at hmem hdot horigin hlhs hrhs ⊢
  have hadd := hc'.addEdge next.id edge
  by_cases hhas : d.Has j rule dot origin
  · obtain ⟨found, hfound, hfoundAt⟩ := hhas
    rw [hadd.edgesAt_eq hfound hfoundAt, hc'.edgesAt_eq hfound hfoundAt,
      edgesOf_addEdge d next.id found.id edge]
    obtain ⟨hfdot, hforigin, hflhs, hfrhs⟩ := Item.isAt_iff.1 hfoundAt
    by_cases hsame : j = k ∧ item.isAt rule (dot - 1) origin = true
    · obtain ⟨rfl, hitem⟩ := hsame
      obtain ⟨hidot, hiorigin, hilhs, hirhs⟩ := Item.isAt_iff.1 hitem
      have heq : found = next := hc'.eq_of_isAt hfound hmem (Item.isAt_iff.2
        ⟨by omega, by omega, by rw [hflhs, hlhs, hilhs], by rw [hfrhs, hrhs, hirhs]⟩)
      rw [heq, if_pos rfl, if_pos ⟨rfl, hitem⟩]
    · have hne : found.id ≠ next.id := by
        intro hid
        obtain rfl := hc'.eq_of_id hfound hmem hid
        refine hsame ⟨hc'.column_unique hfound hmem, Item.isAt_iff.2 ?_⟩
        exact ⟨by omega, by omega, by rw [← hflhs, hlhs], by rw [← hfrhs, hrhs]⟩
      rw [if_neg hne, if_neg hsame, List.append_nil]
  · have hhas' : ¬ (d.addEdge next.id edge).Has j rule dot origin := hhas
    have hsame : ¬ (j = k ∧ item.isAt rule (dot - 1) origin = true) := by
      rintro ⟨rfl, hitem⟩
      obtain ⟨hidot, hiorigin, hilhs, hirhs⟩ := Item.isAt_iff.1 hitem
      refine hhas ⟨next, hmem, Item.isAt_iff.2 ?_⟩
      exact ⟨by omega, by omega, by rw [hlhs, hilhs], by rw [hrhs, hirhs]⟩
    rw [edgesAt_of_not_has hhas, edgesAt_of_not_has hhas', if_neg hsame, List.append_nil]

/-- An edge to a finished part tells both items that it was made from. -/
theorem childEdge_inj {waiting waiting' done done' : Item}
    (h : childEdge waiting done = childEdge waiting' done') :
    waiting.id = waiting'.id ∧ done.id = done'.id := by
  obtain ⟨hprevious, hchild, _, _⟩ := Edge.mk.inj h
  have hdone := Option.some.inj hchild
  omega

/-- The edges that processing item `done` of column `q` gives to the item of column `j` with the given
rule, dot and origin. -/
def given (lex : Lexicon) (c : Chart) (j : Nat) (rule : Rule) (dot origin : Int) (q : Nat)
    (done : Item) : List Edge :=
  match done.next? with
  | none =>
    if j = q then
      ((c.column done.origin.toNat).toList.filter fun waiting =>
        waiting.next? == some done.rule.lhs && waiting.isAt rule (dot - 1) origin).map
          (childEdge · done)
    else []
  | some s =>
    if s.isCategory then []
    else if j = q + 1 ∧ done.isAt rule (dot - 1) origin = true then
      match c.tokens[q]? with
      | some word => ((lex.lookup word).filter (·.pos == s)).map (wordEdge done word)
      | none => []
    else []

private theorem mem_given {j : Nat} {rule : Rule} {dot origin : Int} {q : Nat} {done : Item} {e : Edge} :
    e ∈ given lex c j rule dot origin q done ↔
      (done.next? = none ∧ j = q ∧ ∃ waiting ∈ c.column done.origin.toNat,
        waiting.next? = some done.rule.lhs ∧ waiting.isAt rule (dot - 1) origin = true ∧
          e = childEdge waiting done) ∨
      ∃ s w r, done.next? = some s ∧ s.isCategory = false ∧ j = q + 1 ∧
        done.isAt rule (dot - 1) origin = true ∧ c.tokens[q]? = some w ∧ r ∈ lex.lookup w ∧
          r.pos = s ∧ e = wordEdge done w r := by
  cases hnext : done.next? with
  | none =>
    simp only [given, hnext]
    constructor
    · intro he
      split at he
      · next hj =>
        obtain ⟨waiting, hwaiting, rfl⟩ := List.mem_map.1 he
        obtain ⟨hmem, hcond⟩ := List.mem_filter.1 hwaiting
        rw [Bool.and_eq_true, beq_iff_eq] at hcond
        exact .inl ⟨trivial, hj, waiting, Array.mem_toList_iff.1 hmem, hcond.1, hcond.2, rfl⟩
      · exact absurd he List.not_mem_nil
    · rintro (⟨_, hj, waiting, hmem, hlhs, hat, rfl⟩ | ⟨_, _, _, h, _⟩)
      · rw [if_pos hj]
        refine List.mem_map.2 ⟨waiting, List.mem_filter.2 ⟨Array.mem_toList_iff.2 hmem, ?_⟩, rfl⟩
        rw [Bool.and_eq_true, beq_iff_eq]
        exact ⟨hlhs, hat⟩
      · cases h
  | some s =>
    simp only [given, hnext]
    constructor
    · intro he
      split at he
      · exact absurd he List.not_mem_nil
      · next hcategory =>
        split at he
        · next hat =>
          cases hword : c.tokens[q]? with
          | none => simp [hword] at he
          | some w =>
            rw [hword] at he
            obtain ⟨r, hr, rfl⟩ := List.mem_map.1 he
            obtain ⟨hmem, hpos⟩ := List.mem_filter.1 hr
            exact .inr ⟨s, w, r, rfl, by simpa using hcategory, hat.1, hat.2, rfl, hmem,
              by simpa using hpos, rfl⟩
        · exact absurd he List.not_mem_nil
    · rintro (⟨h, _⟩ | ⟨t, w, r, ht, hcategory, hj, hat, hword, hmem, hpos, rfl⟩)
      · cases h
      · obtain rfl := Option.some.inj ht
        rw [if_neg (by simp [hcategory]), if_pos ⟨hj, hat⟩, hword]
        exact List.mem_map.2 ⟨r, List.mem_filter.2 ⟨hmem, by simpa using hpos⟩, rfl⟩

/-- A row of advances into one column adds, in order, the edges of those that move to an item. -/
private theorem edgesAt_foldl {α : Type} (hedges : c.edges.size ≤ c.items.size) {pos k : Nat}
    (hpos : pos ≤ k) (hk : k ≤ c.tokens.length) (item : α → Item) (edge : α → Edge) (j : Nat)
    (rule : Rule) (dot origin : Int) (l : List α) {d : Chart} (hd : Grown pos c d) :
    (l.foldl (fun d a => d.advance k (item a) (edge a)) d).edgesAt j rule dot origin =
      d.edgesAt j rule dot origin ++
        if j = k then (l.filter fun a => (item a).isAt rule (dot - 1) origin).map edge else [] := by
  induction l generalizing d with
  | nil => simp
  | cons a l ih =>
    rw [List.foldl_cons, ih (hd.advance hpos hk _ _),
      edgesAt_advance hd.coherent (hd.growth.edges hedges) (by rw [hd.size]; omega), List.append_assoc]
    congr 1
    by_cases hj : j = k
    · by_cases hat : (item a).isAt rule (dot - 1) origin = true
      · simp [hj, hat]
      · simp [hj, hat]
    · simp [hj]

private theorem edgesAt_process {pos : Nat} (hc : c.Coherent) (hedges : c.edges.size ≤ c.items.size)
    (hpos : pos ≤ c.tokens.length) (item : Item) (j : Nat) (rule : Rule) (dot origin : Int) :
    (c.process g (nextWord lex c.tokens pos) pos item).edgesAt j rule dot origin =
      c.edgesAt j rule dot origin ++ given lex c j rule dot origin pos item := by
  have hstart : Grown pos c c := ⟨hc, .refl pos c⟩
  unfold process given
  cases hnext : item.next? with
  | none =>
    simp only [complete_eq]
    rw [edgesAt_foldl hedges (Nat.le_refl pos) hpos (fun waiting => waiting) (childEdge · item) j rule dot
      origin _ hstart]
    simp only [List.filter_filter, Bool.and_comm]
  | some s =>
    simp only []
    split
    · next hcategory =>
      rw [List.append_nil]
      exact (predict_induction (motive := fun d =>
        d.edgesAt j rule dot origin = c.edgesAt j rule dot origin) hc hpos s rfl
        fun r _ d hd heq => by
          rw [edgesAt_insert hd.coherent (hd.growth.edges hedges) (by rw [hd.size]; omega), heq]).2
    · next hcategory =>
      cases hword : c.tokens[pos]? with
      | none => simp [nextWord, hword]
      | some word =>
        have hlt := (List.getElem?_eq_some_iff.1 hword).1
        simp only [nextWord, hword, Option.map_some, scan_eq]
        rw [edgesAt_foldl hedges (Nat.le_succ pos) hlt (fun _ => item) (wordEdge item word) j rule dot
          origin _ hstart]
        by_cases hj : j = pos + 1
        · by_cases hat : item.isAt rule (dot - 1) origin = true
          · simp [hj, hat]
          · simp [hj, hat]
        · simp [hj]

/-- The items processed so far with their columns, in order. -/
def processed (c : Chart) (pos i : Nat) : List (Nat × Item) :=
  (List.range pos).flatMap (fun q => (c.column q).toList.map (q, ·)) ++
    ((c.column pos).toList.take i).map (pos, ·)

private theorem mem_processed {pos i q : Nat} {item : Item} (h : (q, item) ∈ c.processed pos i) :
    q ≤ pos ∧ item ∈ c.column q := by
  simp only [processed, List.mem_append, List.mem_flatMap, List.mem_range, List.mem_map,
    Prod.mk.injEq] at h
  rcases h with ⟨q', hq', item', hmem, rfl, rfl⟩ | ⟨item', hmem, rfl, rfl⟩
  · exact ⟨by omega, Array.mem_toList_iff.1 hmem⟩
  · exact ⟨Nat.le_refl _, Array.mem_toList_iff.1 (List.mem_of_mem_take hmem)⟩

private theorem processed_step {d : Chart} {pos i : Nat} {item : Item} (hext : Extends pos c d)
    (hitem : (c.column pos)[i]? = some item) :
    d.processed pos (i + 1) = c.processed pos i ++ [(pos, item)] := by
  have hbefore : (List.range pos).flatMap (fun q => (d.column q).toList.map (q, ·)) =
      (List.range pos).flatMap (fun q => (c.column q).toList.map (q, ·)) := by
    refine List.flatMap_congr fun q hq => ?_
    rw [hext.before q (List.mem_range.1 hq)]
  have hget : (c.column pos).toList[i]? = some item := by simpa using hitem
  have hi := (List.getElem?_eq_some_iff.1 hget).1
  obtain ⟨more, hmore⟩ := hext.columns pos
  have htake : (d.column pos).toList.take (i + 1) = (c.column pos).toList.take i ++ [item] := by
    rw [← hmore, List.take_append_of_le_length hi, List.take_add_one, hget, Option.toList_some]
  rw [processed, processed, hbefore, htake, List.map_append, List.append_assoc]
  rfl

private theorem processed_turn {pos i : Nat} (hend : (c.column pos)[i]? = none) :
    c.processed (pos + 1) 0 = c.processed pos i := by
  have hi : (c.column pos).toList.length ≤ i := by
    simpa using Array.getElem?_eq_none_iff.1 hend
  simp [processed, List.range_succ, List.take_of_length_le hi]

/-- What an item gives depends on no column that is still to be walked. -/
theorem given_extend {d : Chart} {pos q : Nat} {done : Item} (hext : Extends pos c d) (hq : q ≤ pos)
    (hvalid : done.Valid g lex tokens q) (j : Nat) (rule : Rule) (dot origin : Int) :
    given lex d j rule dot origin q done = given lex c j rule dot origin q done := by
  unfold given
  cases hnext : done.next? with
  | none =>
    have horigin := hvalid.origin_lt_of_complete hnext
    simp only [hext.before _ (Nat.lt_of_lt_of_le horigin hq)]
  | some s => simp only [hext.tokens]

/-- The edges of an item are what the processed items gave it. -/
theorem Filling.edgesAt {pos i : Nat} (h : Filling g lex tokens pos i c) (j : Nat) (rule : Rule)
    (dot origin : Int) : c.edgesAt j rule dot origin =
      (c.processed pos i).flatMap fun p => given lex c j rule dot origin p.1 p.2 := by
  induction h with
  | seed =>
    have hempty : (empty tokens).edgesAt j rule dot origin = [] := by
      refine edgesAt_of_not_has ?_
      rintro ⟨item, hmem, _⟩
      simpa [empty] using (Coherent.empty tokens).items_of_column hmem
    have hseed := (predict_induction (g := g)
      (motive := fun d => d.edgesAt j rule dot origin = []) (Coherent.empty tokens)
      (Nat.zero_le _) Symbol.start hempty fun r _ d hd heq => by
        rw [edgesAt_insert hd.coherent (hd.growth.edges (Nat.le_refl 0)) (by rw [hd.size]; omega),
          heq]).2
    simpa [processed] using hseed
  | @step pos i c item h hitem ih =>
    have hgrown := h.step_grown item
    have hsound := h.sound
    have hsame : ((c.processed pos i).flatMap fun p => given lex
        (c.process g (nextWord lex tokens pos) pos item) j rule dot origin p.1 p.2) =
        (c.processed pos i).flatMap fun p => given lex c j rule dot origin p.1 p.2 := by
      refine List.flatMap_congr fun p hp => ?_
      obtain ⟨hq, hmem⟩ := mem_processed hp
      exact given_extend hgrown.growth hq (hsound _ _ hmem) j rule dot origin
    have hlast := given_extend hgrown.growth (Nat.le_refl pos)
      (hsound _ _ (Array.mem_of_getElem? hitem)) j rule dot origin
    rw [processed_step hgrown.growth hitem, List.flatMap_append, hsame, ← ih, List.flatMap_singleton,
      hlast]
    obtain rfl := h.tokens_eq
    exact edgesAt_process h.coherent h.edges_size_le h.pos_le item j rule dot origin
  | turn _ hend _ ih =>
    rw [processed_turn hend]
    exact ih

/-- All items with their columns, in the order in which they are processed. -/
def walk (c : Chart) : List (Nat × Item) :=
  (List.range c.columns.size).flatMap fun q => (c.column q).toList.map (q, ·)

/-- A walk through all columns meets exactly the items of the columns, each with its position. -/
theorem Coherent.mem_walk (hc : c.Coherent) {q : Nat} {item : Item} :
    (q, item) ∈ c.walk ↔ item ∈ c.column q := by
  simp only [walk, List.mem_flatMap, List.mem_range, List.mem_map, Prod.mk.injEq, hc.columns_size]
  constructor
  · rintro ⟨q', _, item', hmem, rfl, rfl⟩
    exact Array.mem_toList_iff.1 hmem
  · intro hmem
    have hle := hc.column_lt hmem
    exact ⟨q, by omega, item, Array.mem_toList_iff.2 hmem, rfl, rfl⟩

private theorem Coherent.walk_nodup (hc : c.Coherent) : c.walk.Nodup := by
  refine List.nodup_flatMap.2 ⟨fun q _ => ?_, ?_⟩
  · refine (hc.column_nodup q).map fun item item' heq => ?_
    exact (Prod.mk.inj heq).2
  · refine List.nodup_range.imp fun {q q'} hne => ?_
    intro p hp hp'
    obtain ⟨_, _, rfl⟩ := List.mem_map.1 hp
    obtain ⟨_, _, heq⟩ := List.mem_map.1 hp'
    exact hne (Prod.mk.inj heq).1.symm

/-- The edges of an item, in their order: what every item of the chart has given it, column by column. -/
theorem build_edgesOf (g : Grammar) (lex : Lexicon) (tokens : List String) {j : Nat} {item : Item}
    (hmem : item ∈ (build g lex tokens).column j) :
    (build g lex tokens).edgesOf item.id = (build g lex tokens).walk.flatMap fun p =>
      given lex (build g lex tokens) j item.rule item.dot item.origin p.1 p.2 := by
  obtain ⟨stop, hfilling, hend⟩ := build_filling g lex tokens
  have hedges := hfilling.edgesAt j item.rule item.dot item.origin
  rw [hfilling.coherent.edgesAt_eq hmem (Item.isAt_self item), ← processed_turn hend] at hedges
  rw [hedges, walk, hfilling.size]
  simp [processed]

/-- An item that has found a symbol came from one in which that symbol was to be found next. -/
theorem build_previous (g : Grammar) (lex : Lexicon) (tokens : List String) {j : Nat} {item : Item}
    (hmem : item ∈ (build g lex tokens).column j) {s : Symbol} (hdot : item.dot ≠ 0)
    (hs : item.rule.rhs[item.dot.toNat - 1]? = some s) :
    ∃ m, ∃ waiting ∈ (build g lex tokens).column m,
      waiting.isAt item.rule (item.dot - 1) item.origin = true ∧
        g.Covers lex tokens [.symbol s] m j := by
  have hvalid := build_sound g lex tokens j item hmem
  obtain ⟨_, hlast, _, hsplit⟩ := hvalid.exists_last hdot
  obtain rfl := Option.some.inj (hlast.symm.trans hs)
  have hcovers := hvalid.covers
  rw [hsplit, List.map_append, covers_append] at hcovers
  obtain ⟨m, hbefore, hover⟩ := hcovers
  obtain ⟨waiting, hwaiting, hat⟩ := build_waiting hmem hdot hbefore
  exact ⟨m, waiting, hwaiting, hat, hover⟩

private theorem flatMap_eq_of_unique {α β : Type} {l : List α} {f : α → List β} {x : α}
    (hnodup : l.Nodup) (hx : x ∈ l) (hother : ∀ y ∈ l, y ≠ x → f y = []) : l.flatMap f = f x := by
  obtain ⟨before, after, rfl⟩ := List.append_of_mem hx
  have hnil {part : List α} (hpart : ∀ y ∈ part, y ∈ before ++ x :: after ∧ y ≠ x) :
      part.flatMap f = [] :=
    List.flatMap_eq_nil_iff.2 fun y hy => hother y (hpart y hy).1 (hpart y hy).2
  obtain ⟨_, hxafter, hdisjoint⟩ := List.nodup_append.1 hnodup
  rw [List.flatMap_append, List.flatMap_cons, hnil, hnil, List.nil_append, List.append_nil]
  · intro y hy
    refine ⟨by simp [hy], ?_⟩
    rintro rfl
    exact (List.nodup_cons.1 hxafter).1 hy
  · intro y hy
    exact ⟨by simp [hy], hdisjoint y hy x (by simp)⟩

/-- An item that has found nothing yet has no edges. -/
theorem build_edges_start (g : Grammar) (lex : Lexicon) (tokens : List String) {j : Nat}
    {item : Item} (hmem : item ∈ (build g lex tokens).column j) (hdot : item.dot = 0) :
    (build g lex tokens).edgesOf item.id = [] := by
  have hc := build_coherent g lex tokens
  have hs := build_sound g lex tokens
  rw [build_edgesOf g lex tokens hmem]
  refine List.flatMap_eq_nil_iff.2 fun p hp => List.eq_nil_iff_forall_not_mem.2 fun e he => ?_
  have hp' := hc.mem_walk.1 hp
  rcases mem_given.1 he with ⟨_, _, waiting, hwaiting, _, hat, _⟩ | ⟨_, _, _, _, _, _, hat, _⟩
  · have hnonneg := (hs _ _ hwaiting).dot_nonneg
    have := (Item.isAt_iff.1 hat).1
    omega
  · have hnonneg := (hs _ _ hp').dot_nonneg
    have := (Item.isAt_iff.1 hat).1
    omega

/-- An item that has found a tag last has an edge for each reading of the word before its column, in
the order of the lexicon. -/
theorem build_edges_word (g : Grammar) (lex : Lexicon) (tokens : List String) {j : Nat}
    {item : Item} (hmem : item ∈ (build g lex tokens).column j) (hdot : item.dot ≠ 0) {tag : Symbol}
    (htag : item.rule.rhs[item.dot.toNat - 1]? = some tag) (hcategory : tag.isCategory = false) :
    ∃ m w, j = m + 1 ∧ tokens[m]? = some w ∧ lex.Tags tag w ∧
      ∃ waiting ∈ (build g lex tokens).column m,
        waiting.isAt item.rule (item.dot - 1) item.origin = true ∧
        (build g lex tokens).edgesOf item.id =
          ((lex.lookup w).filter (·.pos == tag)).map (wordEdge waiting w) := by
  have hc := build_coherent g lex tokens
  have hs := build_sound g lex tokens
  have htokens := build_tokens g lex tokens
  have hpositive : 0 < item.dot := by
    have := (hs j item hmem).dot_nonneg
    omega
  obtain ⟨m, waiting, hwaiting, hat, hcovers⟩ := build_previous g lex tokens hmem hdot htag
  have hnext := Item.next?_of_isAt hpositive htag hat
  cases hcovers with
  | @tag _ w _ _ _ hword htags hrest =>
    obtain ⟨rfl, _⟩ := covers_nil.1 hrest
    refine ⟨m, w, rfl, hword, htags, waiting, hwaiting, hat, ?_⟩
    rw [build_edgesOf g lex tokens hmem,
      flatMap_eq_of_unique hc.walk_nodup (hc.mem_walk.2 hwaiting)]
    · simp [given, hnext, hcategory, hat, htokens, hword]
    · rintro ⟨q, other⟩ hother hne
      refine List.eq_nil_iff_forall_not_mem.2 fun e he => ?_
      have hother' := hc.mem_walk.1 hother
      rcases mem_given.1 he with ⟨_, _, w', hw', hlhs, hat', _⟩ | ⟨_, _, _, _, _, hq, hat', _⟩
      · -- A category was found last there, which the tag is not.
        rw [Item.next?_of_isAt hpositive htag hat'] at hlhs
        have := isCategory_of_mem (hs _ _ hother').rule
        rw [← Option.some.inj hlhs, hcategory] at this
        cases this
      · obtain rfl : m = q := by simpa using hq
        exact hne (congrArg (m, ·) (hc.eq_of_isAt_isAt hother' hwaiting hat' hat))
  | rule hrule _ _ =>
    rw [isCategory_of_mem hrule] at hcategory
    cases hcategory

section

variable {j : Nat} {item : Item} (hmem : item ∈ (build g lex tokens).column j) (hdot : item.dot ≠ 0)
  {s : Symbol} (hs : item.rule.rhs[item.dot.toNat - 1]? = some s) (hcategory : s.isCategory = true)

include hmem hdot hs hcategory

/-- The items that give an edge to an item that has found a category last are complete. -/
theorem mem_given_child {q : Nat} {done : Item} {e : Edge} :
    e ∈ given lex (build g lex tokens) j item.rule item.dot item.origin q done ↔
      done.next? = none ∧ j = q ∧ done.rule.lhs = s ∧
        ∃ waiting ∈ (build g lex tokens).column done.origin.toNat,
          waiting.isAt item.rule (item.dot - 1) item.origin = true ∧ e = childEdge waiting done := by
  have hpositive : 0 < item.dot := by
    have := (build_sound g lex tokens j item hmem).dot_nonneg
    omega
  constructor
  · intro he
    rcases mem_given.1 he with ⟨hcomplete, hq, waiting, hwaiting, hnext, hat, rfl⟩ |
      ⟨t, _, _, hnext, ht, _, hat, _⟩
    · rw [Item.next?_of_isAt hpositive hs hat] at hnext
      exact ⟨hcomplete, hq, (Option.some.inj hnext).symm, waiting, hwaiting, hat, rfl⟩
    · rw [Item.next?_of_isAt hpositive hs hat] at hnext
      rw [← Option.some.inj hnext, hcategory] at ht
      cases ht
  · rintro ⟨hcomplete, hq, rfl, waiting, hwaiting, hat, rfl⟩
    exact mem_given.2 (.inl ⟨hcomplete, hq, waiting, hwaiting,
      Item.next?_of_isAt hpositive hs hat, hat, rfl⟩)

private theorem given_child_nodup (q : Nat) (done : Item) :
    (given lex (build g lex tokens) j item.rule item.dot item.origin q done).Nodup := by
  have hc := build_coherent g lex tokens
  cases hnext : done.next? with
  | none =>
    simp only [given, hnext]
    split
    · refine ((hc.column_nodup _).filter _).map_on fun waiting hwaiting other hother heq => ?_
      have hid := (childEdge_inj heq).1
      exact hc.eq_of_id (Array.mem_toList_iff.1 (List.mem_filter.1 hwaiting).1)
        (Array.mem_toList_iff.1 (List.mem_filter.1 hother).1) hid
    · exact List.nodup_nil
  | some t =>
    have hempty : given lex (build g lex tokens) j item.rule item.dot item.origin q done = [] :=
      List.eq_nil_iff_forall_not_mem.2 fun e he => by
        rw [((mem_given_child hmem hdot hs hcategory).1 he).1] at hnext
        cases hnext
    rw [hempty]
    exact List.nodup_nil

end

/-- An item that has found a category last has one edge for each pair of an item that waited for the
category and a complete item that began in its column. -/
theorem build_edges_child (g : Grammar) (lex : Lexicon) (tokens : List String) {j : Nat}
    {item : Item} (hmem : item ∈ (build g lex tokens).column j) (hdot : item.dot ≠ 0) {s : Symbol}
    (hs : item.rule.rhs[item.dot.toNat - 1]? = some s) (hcategory : s.isCategory = true) :
    ((build g lex tokens).edgesOf item.id).Nodup ∧
      ∀ e, e ∈ (build g lex tokens).edgesOf item.id ↔
        ∃ m, ∃ waiting ∈ (build g lex tokens).column m, ∃ done ∈ (build g lex tokens).column j,
          waiting.isAt item.rule (item.dot - 1) item.origin = true ∧ done.next? = none ∧
            done.rule.lhs = s ∧ done.origin = m ∧ e = childEdge waiting done := by
  have hc := build_coherent g lex tokens
  have hgiven {q : Nat} {done : Item} {e : Edge} :
      e ∈ given lex (build g lex tokens) j item.rule item.dot item.origin q done ↔ _ :=
    mem_given_child hmem hdot hs hcategory
  rw [build_edgesOf g lex tokens hmem]
  constructor
  · refine List.nodup_flatMap.2 ⟨fun x _ => given_child_nodup hmem hdot hs hcategory x.1 x.2, ?_⟩
    refine hc.walk_nodup.imp_of_mem fun {p p'} hp hp' hne e he he' => ?_
    obtain ⟨_, hq, _, waiting, _, _, rfl⟩ := hgiven.1 he
    obtain ⟨_, hq', _, other, _, _, heq⟩ := hgiven.1 he'
    have hid := (childEdge_inj heq).2
    have hdone := hc.eq_of_id (hc.mem_walk.1 hp) (hc.mem_walk.1 hp') hid
    exact hne (Prod.ext (hq.symm.trans hq') hdone)
  · intro e
    rw [List.mem_flatMap]
    constructor
    · rintro ⟨⟨q, done⟩, hdone, he⟩
      obtain ⟨hcomplete, rfl, hlhs, waiting, hwaiting, hat, rfl⟩ := hgiven.1 he
      have hdone' := hc.mem_walk.1 hdone
      have horigin : 0 ≤ done.origin := (build_sound g lex tokens _ _ hdone').origin_nonneg
      exact ⟨_, waiting, hwaiting, done, hdone', hat, hcomplete, hlhs,
        (Int.toNat_of_nonneg horigin).symm, rfl⟩
    · rintro ⟨m, waiting, hwaiting, done, hdone, hat, hcomplete, hlhs, horigin, rfl⟩
      have hwaiting' : waiting ∈ (build g lex tokens).column done.origin.toNat := by
        simpa [horigin] using hwaiting
      exact ⟨(j, done), hc.mem_walk.2 hdone,
        hgiven.2 ⟨hcomplete, rfl, hlhs, waiting, hwaiting', hat, rfl⟩⟩

/-- Each edge of an item goes over a word that has a tag, or over a complete item. -/
theorem build_edge_cases (g : Grammar) (lex : Lexicon) (tokens : List String) {j : Nat}
    {item : Item} (hmem : item ∈ (build g lex tokens).column j) {s : Symbol} (hdot : item.dot ≠ 0)
    (hs : item.rule.rhs[item.dot.toNat - 1]? = some s) {e : Edge}
    (he : e ∈ (build g lex tokens).edgesOf item.id) :
    (∃ m w r, ∃ waiting ∈ (build g lex tokens).column m, j = m + 1 ∧ tokens[m]? = some w ∧
      r ∈ lex.lookup w ∧ r.pos = s ∧ s.isCategory = false ∧
        waiting.isAt item.rule (item.dot - 1) item.origin = true ∧ e = wordEdge waiting w r) ∨
    ∃ m, ∃ waiting ∈ (build g lex tokens).column m, ∃ done ∈ (build g lex tokens).column j,
      waiting.isAt item.rule (item.dot - 1) item.origin = true ∧ done.next? = none ∧
        done.rule.lhs = s ∧ done.origin = m ∧ e = childEdge waiting done := by
  cases hcategory : s.isCategory with
  | false =>
    obtain ⟨m, w, hj, hword, _, waiting, hwaiting, hat, hedges⟩ :=
      build_edges_word g lex tokens hmem hdot hs hcategory
    rw [hedges] at he
    obtain ⟨r, hr, rfl⟩ := List.mem_map.1 he
    obtain ⟨hr, hpos⟩ := List.mem_filter.1 hr
    exact .inl ⟨m, w, r, waiting, hwaiting, hj, hword, hr, by simpa using hpos, rfl, hat, rfl⟩
  | true => exact .inr (((build_edges_child g lex tokens hmem hdot hs hcategory).2 e).1 he)

end Chart

end Earley
