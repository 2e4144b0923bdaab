import Earley.English
import Earley.Proofs.Forest.Harvest
import Earley.Proofs.Forest.Sentence

namespace Earley.Forest

open Earley.Tree

variable {g : Grammar} {lex : Lexicon} {tokens : List String} {limit : Nat}

/-- Rows of derivation trees for the symbols before the dot of an item. -/
def Rows (g : Grammar) (lex : Lexicon) (tokens : List String) (j : Nat) (item : Item)
    (found : List Partial) : Prop :=
  ∀ p ∈ found, p.Row g lex tokens j item

/-- Trees that rows of an item were closed to. -/
def Closings (g : Grammar) (lex : Lexicon) (tokens : List String) (j : Nat) (item : Item)
    (found : List Keyed) : Prop :=
  ∀ k ∈ found, ∃ p : Partial, p.Row g lex tokens j item ∧ p.close item = k

/-- What a table has under the number of an item of the chart, it has for that item. -/
def Recorded {β : Type} (c : Chart) (holds : Nat → Item → β → Prop) (table : Std.HashMap Nat β) : Prop :=
  ∀ (j : Nat) (item : Item), item ∈ c.column j → ∀ known, table[item.id]? = some known →
    holds j item known

/-- A table in which everything holds of its item stays such when something is entered that holds of its
own. -/
theorem Recorded.insert {β : Type} {c : Chart} {holds : Nat → Item → β → Prop}
    {table : Std.HashMap Nat β} (h : Recorded c holds table) (hc : c.Coherent) {j : Nat} {item : Item}
    (hitem : item ∈ c.column j) {found : β} (hfound : holds j item found) :
    Recorded c holds (table.insert item.id found) := by
  intro k other hother known hknown
  rw [Std.HashMap.getElem?_insert] at hknown
  split at hknown
  · next heq =>
    obtain rfl := Option.some.inj hknown
    obtain rfl := hc.eq_of_id hitem hother (beq_iff_eq.1 heq)
    obtain rfl := hc.column_unique hitem hother
    exact hfound
  · exact h k other hother known hknown

/-- What is remembered of an item are rows of it, and trees that its rows were closed to. -/
structure Memo.Right (g : Grammar) (lex : Lexicon) (tokens : List String) (memo : Memo) : Prop where
  partials : Recorded (Chart.build g lex tokens) (Rows g lex tokens) memo.partials
  trees : Recorded (Chart.build g lex tokens) (Closings g lex tokens) memo.trees

namespace Memo.Right

variable {memo : Memo} {j : Nat} {item : Item}

theorem empty : Memo.Right g lex tokens {} :=
  ⟨fun _ _ _ _ h => by simp at h, fun _ _ _ _ h => by simp at h⟩

/-- A memory stays right when rows of an item are kept in it. -/
theorem keepPartials (h : memo.Right g lex tokens)
    (hitem : item ∈ (Chart.build g lex tokens).column j) {found : List Partial}
    (hfound : Rows g lex tokens j item found) : (memo.keepPartials item.id found).Right g lex tokens :=
  ⟨h.partials.insert (Chart.build_coherent g lex tokens) hitem hfound, h.trees⟩

/-- A memory stays right when trees of an item are kept in it. -/
theorem keepTrees (h : memo.Right g lex tokens)
    (hitem : item ∈ (Chart.build g lex tokens).column j) {found : List Keyed}
    (hfound : Closings g lex tokens j item found) : (memo.keepTrees item.id found).Right g lex tokens :=
  ⟨h.partials, h.trees.insert (Chart.build_coherent g lex tokens) hitem hfound⟩

end Memo.Right

/-- An action that comes to its end with a result of the given kind, and leaves what is remembered
right. -/
def Yields {α : Type} (g : Grammar) (lex : Lexicon) (tokens : List String) (kind : α → Prop)
    (act : StateT Memo (Except Fault) (α × Bool)) : Prop :=
  ∀ memo : Memo, memo.Right g lex tokens → ∃ found cut memo',
    act.run memo = .ok ((found, cut), memo') ∧ kind found ∧ memo'.Right g lex tokens

section

variable {expand : Item → StateT Memo (Except Fault) Expansion} {j : Nat} {item : Item}

/-- Rows that are continued along one edge of an item are rows of that item. -/
private theorem followEdges_edge_yields {close : Item → StateT Memo (Except Fault) Closed}
    (hexpand : ∀ {k : Nat} {other : Item}, other ∈ (Chart.build g lex tokens).column k →
      Yields g lex tokens (Rows g lex tokens k other) (expand other))
    (hclose : ∀ {k : Nat} {other : Item}, other ∈ (Chart.build g lex tokens).column k →
      Yields g lex tokens (Closings g lex tokens k other) (close other))
    (hitem : item ∈ (Chart.build g lex tokens).column j) (hdot : item.dot ≠ 0) {e : Edge}
    (hedge : e ∈ (Chart.build g lex tokens).edgesOf item.id) {found : Array Partial}
    (hroom : ¬limit ≤ found.size) {memo : Memo} (hmemo : memo.Right g lex tokens) (rest : List Edge)
    (cut : Bool) :
    ∃ before children cut' memo',
      (followEdges (Chart.build g lex tokens) limit expand close item (e :: rest) found cut).run memo =
        (followEdges (Chart.build g lex tokens) limit expand close item rest
          (keepAll limit children before found) cut').run memo' ∧
      Rows g lex tokens j item (before.flatMap (grown children)) ∧ memo'.Right g lex tokens := by
  have hc := Chart.build_coherent g lex tokens
  have hsound := Chart.build_sound g lex tokens
  obtain ⟨s, hs, hsymbol, hsplit⟩ := (hsound j item hitem).exists_last hdot
  rcases Chart.build_edge_cases g lex tokens hitem hdot hs hedge with
    ⟨m, w, r, waiting, hwaiting, rfl, hword, hr, rfl, htag, hat, rfl⟩ |
      ⟨m, waiting, hwaiting, done, hdone, hat, hcomplete, rfl, horigin, rfl⟩
  · obtain ⟨before, cutBefore, memo₁, hrun₁, hrows, hmemo₁⟩ := hexpand hwaiting memo hmemo
    refine ⟨before, fun p => [leafAfter r.pos (Chart.wordEdge waiting w r) p], cut || cutBefore,
      memo₁, ?_, ?_, hmemo₁⟩
    · rw [followEdges_leaf hroom (hc.item?_of_mem hwaiting) rfl hsymbol, run_bind_ok hrun₁]
    · intro q hq
      obtain ⟨p, hp, hq⟩ := List.mem_flatMap.1 hq
      obtain ⟨k, hk, _, rfl⟩ := mem_grown.1 hq
      rw [List.mem_singleton.1 hk]
      exact (hrows p hp).read hat hsplit hword hr htag
  · obtain ⟨before, cutBefore, memo₁, hrun₁, hrows, hmemo₁⟩ := hexpand hwaiting memo hmemo
    obtain ⟨inside, cutInside, memo₂, hrun₂, hclosings, hmemo₂⟩ := hclose hdone memo₁ hmemo₁
    refine ⟨before, fun _ => inside, cut || cutBefore || cutInside, memo₂, ?_, ?_, hmemo₂⟩
    · rw [followEdges_child hroom (hc.item?_of_mem hwaiting) rfl (hc.item?_of_mem hdone),
        run_bind_ok hrun₁]
      exact run_bind_ok hrun₂
    · intro q hq
      obtain ⟨p, hp, hq⟩ := List.mem_flatMap.1 hq
      obtain ⟨k, hk, _, rfl⟩ := mem_grown.1 hq
      obtain ⟨inner, hinner, rfl⟩ := hclosings k hk
      exact (hrows p hp).join hat hsplit hinner (hsound j done hdone) hcomplete horigin

/-- Rows that are continued along the edges of an item are rows of that item. -/
private theorem followEdges_yields {close : Item → StateT Memo (Except Fault) Closed}
    (hexpand : ∀ {k : Nat} {other : Item}, other ∈ (Chart.build g lex tokens).column k →
      Yields g lex tokens (Rows g lex tokens k other) (expand other))
    (hclose : ∀ {k : Nat} {other : Item}, other ∈ (Chart.build g lex tokens).column k →
      Yields g lex tokens (Closings g lex tokens k other) (close other))
    (hitem : item ∈ (Chart.build g lex tokens).column j) (hdot : item.dot ≠ 0) {edges : List Edge}
    (hedges : ∀ e ∈ edges, e ∈ (Chart.build g lex tokens).edgesOf item.id) {seen : List Partial}
    {found : Array Partial} (hfound : Gathered limit seen found) (hseen : Rows g lex tokens j item seen)
    (cut : Bool) : Yields g lex tokens (Rows g lex tokens j item)
      (followEdges (Chart.build g lex tokens) limit expand close item edges found cut) := by
  have hkept {seen : List Partial} {found : Array Partial} (h : Gathered limit seen found)
      (hseen : Rows g lex tokens j item seen) : Rows g lex tokens j item found.toList := by
    intro p hp
    rw [h] at hp
    exact hseen p (mem_of_mem_firstBy (List.mem_of_mem_take hp))
  induction edges generalizing seen found cut with
  | nil => exact fun memo hmemo => ⟨_, cut, memo, rfl, hkept hfound hseen, hmemo⟩
  | cons e rest ih =>
    intro memo hmemo
    by_cases hroom : limit ≤ found.size
    · refine ⟨found.toList, cut, memo, ?_, hkept hfound hseen, hmemo⟩
      rw [followEdges_full hroom]
      rfl
    · obtain ⟨hedge, hrest⟩ := List.forall_mem_cons.1 hedges
      obtain ⟨before, children, cut', memo', hrun, hmore, hmemo'⟩ :=
        followEdges_edge_yields hexpand hclose hitem hdot hedge hroom hmemo rest cut
      obtain ⟨result, cut'', memo'', hrun', h⟩ := ih hrest (hfound.keepAll children before)
        (List.forall_mem_append.2 ⟨hseen, hmore⟩) cut' memo' hmemo'
      exact ⟨result, cut'', memo'', hrun.trans hrun', h⟩

/-- Closing an expansion, or remembering that this was done, gives the closed rows. -/
theorem closeMemo_yields (hitem : item ∈ (Chart.build g lex tokens).column j)
    (hexpand : Yields g lex tokens (Rows g lex tokens j item) (expand item)) :
    Yields g lex tokens (Closings g lex tokens j item) (closeMemo expand item) := by
  intro memo hmemo
  cases hknown : memo.trees[item.id]? with
  | some known =>
    refine ⟨known, false, memo, ?_, hmemo.trees j item hitem known hknown, hmemo⟩
    simp [closeMemo, hknown]
    rfl
  | none =>
    obtain ⟨found, cut, memo', hrun, hrows, hmemo'⟩ := hexpand memo hmemo
    have hclosed : (closePlain expand item).run memo =
        .ok ((found.map (Partial.close item), cut), memo') := by
      rw [closePlain, run_bind_ok hrun]
      rfl
    have hclosings : Closings g lex tokens j item (found.map (Partial.close item)) := by
      intro k hk
      obtain ⟨p, hp, rfl⟩ := List.mem_map.1 hk
      exact ⟨p, hrows p hp, rfl⟩
    cases cut with
    | true =>
      refine ⟨_, true, memo', ?_, hclosings, hmemo'⟩
      simp [closeMemo, hknown, run_bind_ok hclosed]
      rfl
    | false =>
      refine ⟨_, false, _, ?_, hclosings, hmemo'.keepTrees hitem hclosings⟩
      simp [closeMemo, hknown, run_bind_ok hclosed]
      rfl

end

/-- Below any path and with any fuel, the expansion of an item of the chart gives rows of it. -/
theorem expandMemo_yields (g : Grammar) (lex : Lexicon) (tokens : List String) (limit fuel : Nat)
    (path : List Nat) {j : Nat} {item : Item} (hitem : item ∈ (Chart.build g lex tokens).column j) :
    Yields g lex tokens (Rows g lex tokens j item)
      (expandMemo (Chart.build g lex tokens) limit fuel path item) := by
  have hnone : Rows g lex tokens j item [] := fun _ hp => absurd hp List.not_mem_nil
  induction fuel generalizing path j item with
  | zero => exact fun memo hmemo => ⟨[], true, memo, rfl, hnone, hmemo⟩
  | succ fuel ih =>
    intro memo hmemo
    rw [expandMemo]
    cases hknown : memo.partials[item.id]? with
    | some known =>
      refine ⟨known, false, memo, ?_, hmemo.partials j item hitem known hknown, hmemo⟩
      simp [hknown]
      rfl
    | none =>
      by_cases hmem : item.id ∈ path
      · refine ⟨[], true, memo, ?_, hnone, hmemo⟩
        simp [hknown, hmem]
        rfl
      by_cases hdot : item.dot = 0
      · refine ⟨[start item], false, memo, ?_, ?_, hmemo⟩
        · simp [hknown, hmem, hdot]
          rfl
        · exact List.forall_mem_singleton.2 (start_row (Chart.build_sound g lex tokens j item hitem) hdot)
      have hexpand {k : Nat} {other : Item} (hother : other ∈ (Chart.build g lex tokens).column k) :=
        ih (item.id :: path) hother fun _ hp => absurd hp List.not_mem_nil
      obtain ⟨found, cut, memo', hrun, hrows, hmemo'⟩ := followEdges_yields hexpand
        (fun hother => closeMemo_yields hother (hexpand hother)) hitem hdot (fun _ he => he) (.nil limit)
        hnone false memo hmemo
      cases cut with
      | true =>
        refine ⟨found, true, memo', ?_, hrows, hmemo'⟩
        simp [hknown, hmem, hdot, run_bind_ok hrun]
        rfl
      | false =>
        refine ⟨found, false, _, ?_, hrows, hmemo'.keepPartials hitem hrows⟩
        simp [hknown, hmem, hdot, run_bind_ok hrun]
        rfl

/-- The form that comes with a tree of a complete item is its canonical form. -/
theorem Closings.key_eq {j : Nat} {item : Item} {found : List Keyed}
    (h : Closings g lex tokens j item found) (hvalid : item.Valid g lex tokens j)
    (hcomplete : item.next? = none) : ∀ k ∈ found, k.key = k.tree.canonical := by
  intro k hk
  obtain ⟨p, hp, rfl⟩ := h k hk
  exact (hp.close hvalid hcomplete).2.2.2

/-- Of trees that were told apart by their canonical forms, no two have the same. -/
theorem Harvested.distinct {seen : List (Parse × String)} {h : Harvest} (hh : Harvested limit seen h)
    (hseen : ∀ x ∈ seen, x.2 = x.1.root.canonical) :
    h.parses.toList.length ≤ limit ∧ (h.parses.toList.map fun tree => tree.root.canonical).Nodup := by
  have hforms : (h.parses.toList.map fun tree => tree.root.canonical) =
      ((firstBy Prod.snd seen).take limit).map Prod.snd := by
    rw [hh.parses, List.map_map]
    refine List.map_congr_left fun x hx => ?_
    exact (hseen x (mem_of_mem_firstBy (List.mem_of_mem_take hx))).symm
  constructor
  · rw [hh.parses, List.length_map]
    exact List.length_take_le _ _
  · rw [hforms]
    exact (nodup_map_firstBy seen).sublist ((List.take_sublist _ _).map Prod.snd)

private theorem harvestFrom_distinct {close : Item → StateT Memo (Except Fault) Closed}
    (hclose : ∀ {j : Nat} {item : Item}, item ∈ (Chart.build g lex tokens).column j →
      Yields g lex tokens (Closings g lex tokens j item) (close item))
    {symbol : Symbol} {items : List Item}
    (hitems : ∀ item ∈ items, item ∈ (Chart.build g lex tokens).completed symbol)
    {seen : List (Parse × String)} {h : Harvest} (hh : Harvested limit seen h)
    (hseen : ∀ x ∈ seen, x.2 = x.1.root.canonical) (hroom : h.parses.size < limit) {memo : Memo}
    (hmemo : memo.Right g lex tokens) :
    ∃ trees memo', (harvestFrom (Chart.build g lex tokens) limit close items h).run memo =
        .ok (trees, memo') ∧ memo'.Right g lex tokens ∧ trees.length ≤ limit ∧
      (trees.map fun tree => tree.root.canonical).Nodup := by
  induction items generalizing seen h memo with
  | nil => exact ⟨h.parses.toList, memo, rfl, hmemo, hh.distinct hseen⟩
  | cons item rest ih =>
    obtain ⟨hmem, _, hcomplete, _⟩ := mem_completed.1 (hitems item List.mem_cons_self)
    obtain ⟨found, cut, memo', hrun, hfound, hmemo'⟩ := hclose hmem memo hmemo
    have hkeys := hfound.key_eq (Chart.build_sound g lex tokens _ item hmem) hcomplete
    have hseen' : ∀ x ∈ seen ++
        found.map (entry (Chart.build g lex tokens).tokens item.rule.weight), x.2 = x.1.root.canonical := by
      refine List.forall_mem_append.2 ⟨hseen, fun x hx => ?_⟩
      obtain ⟨k, hk, rfl⟩ := List.mem_map.1 hx
      exact hkeys k hk
    rw [harvestFrom, run_bind_ok hrun]
    simp only []
    split
    · next h' heq =>
      have hfull := hh.take_full hroom heq []
      rw [List.append_nil] at hfull
      exact ⟨h'.parses.toList, memo', rfl, hmemo', hfull.distinct hseen'⟩
    · next h' heq =>
      obtain ⟨hmore, hroom'⟩ := hh.take_room hroom heq
      exact ih (fun other hother => hitems other (List.mem_cons_of_mem item hother)) hmore hseen' hroom'
        hmemo'

private theorem extractMemo_distinct (hlimit : 0 < limit) (symbol : Symbol) {memo : Memo}
    (hmemo : memo.Right g lex tokens) :
    ∃ trees memo', (extractMemo (Chart.build g lex tokens) limit symbol).run memo =
        .ok (trees, memo') ∧ memo'.Right g lex tokens ∧ trees.length ≤ limit ∧
      (trees.map fun tree => tree.root.canonical).Nodup :=
  harvestFrom_distinct
    (fun hitem => closeMemo_yields hitem (expandMemo_yields g lex tokens limit _ [] hitem))
    (fun _ hitem => hitem) (.nil limit) (fun _ hx => absurd hx List.not_mem_nil) hlimit hmemo

/-- What may be remembered after some calls, one after the other: extractions, and expansions and
closings of items of the chart below any paths. The calls that a call makes in turn are such calls, from
what is remembered by then. -/
inductive Reached (c : Chart) (limit : Nat) : Memo → Prop where
  | fresh : Reached c limit {}
  | expand {memo memo' : Memo} {fuel : Nat} {path : List Nat} {j : Nat} {item : Item}
    {result : Expansion} (h : Reached c limit memo) (hitem : item ∈ c.column j)
    (hrun : (expandMemo c limit fuel path item).run memo = .ok (result, memo')) : Reached c limit memo'
  | close {memo memo' : Memo} {fuel : Nat} {path : List Nat} {j : Nat} {item : Item} {result : Closed}
    (h : Reached c limit memo) (hitem : item ∈ c.column j)
    (hrun : (closeMemo (expandMemo c limit fuel path) item).run memo = .ok (result, memo')) :
    Reached c limit memo'
  | extract {memo memo' : Memo} {symbol : Symbol} {trees : List Parse} (h : Reached c limit memo)
    (hrun : (extractMemo c limit symbol).run memo = .ok (trees, memo')) : Reached c limit memo'

/-- Whatever was asked before, the memory is right: all its keys are canonical forms. -/
theorem Reached.right (hlimit : 0 < limit) {memo : Memo}
    (h : Reached (Chart.build g lex tokens) limit memo) : memo.Right g lex tokens := by
  -- Each call ends in one way only.
  have hsame {α : Type} {run : Except Fault (α × Memo)} {a a' : α} {memo memo' : Memo}
      (hrun : run = .ok (a, memo)) (hrun' : run = .ok (a', memo')) (hmemo : memo.Right g lex tokens) :
      memo'.Right g lex tokens := by
    obtain ⟨_, rfl⟩ := Prod.mk.inj (Except.ok.inj (hrun.symm.trans hrun'))
    exact hmemo
  induction h with
  | fresh => exact .empty
  | expand _ hitem hrun ih =>
    obtain ⟨_, _, _, hrun', _, hmemo'⟩ := expandMemo_yields g lex tokens limit _ _ hitem _ ih
    exact hsame hrun' hrun hmemo'
  | close _ hitem hrun ih =>
    obtain ⟨_, _, _, hrun', _, hmemo'⟩ :=
      closeMemo_yields hitem (expandMemo_yields g lex tokens limit _ _ hitem) _ ih
    exact hsame hrun' hrun hmemo'
  | extract _ hrun ih =>
    obtain ⟨_, _, hrun', hmemo', _⟩ := extractMemo_distinct hlimit _ ih
    exact hsame hrun' hrun hmemo'

/-- In the chart of a sentence, whatever calls were made before: the trees of a complete item come with
their canonical forms, and an extraction gives no more trees than the bound admits, no two of them with
the same canonical form. -/
theorem keys_canonical (g : Grammar) (lex : Lexicon) (tokens : List String) {limit : Nat}
    (hlimit : 0 < limit) {memo : Memo} (h : Reached (Chart.build g lex tokens) limit memo) :
    (∀ (fuel : Nat) (path : List Nat) (j : Nat), ∀ item ∈ (Chart.build g lex tokens).column j,
      item.isComplete = true → ∃ found cut memo',
        (closeMemo (expandMemo (Chart.build g lex tokens) limit fuel path) item).run memo =
          .ok ((found, cut), memo') ∧ ∀ k ∈ found, k.key = k.tree.canonical) ∧
    ∀ symbol, ∃ trees memo',
      (extractMemo (Chart.build g lex tokens) limit symbol).run memo = .ok (trees, memo') ∧
        trees.length ≤ limit ∧ (trees.map fun tree => tree.root.canonical).Nodup := by
  have hmemo := h.right hlimit
  constructor
  · intro fuel path j item hitem hcomplete
    have hvalid := Chart.build_sound g lex tokens j item hitem
    obtain ⟨found, cut, memo', hrun, hfound, _⟩ :=
      closeMemo_yields hitem (expandMemo_yields g lex tokens limit fuel path hitem) memo hmemo
    exact ⟨found, cut, memo', hrun,
      hfound.key_eq hvalid ((Item.isComplete_iff hvalid.dot_nonneg).1 hcomplete)⟩
  · intro symbol
    obtain ⟨trees, memo', hrun, _, hdistinct⟩ := extractMemo_distinct hlimit symbol hmemo
    exact ⟨trees, memo', hrun, hdistinct⟩

/-- The chart of a row of one and the same word. -/
def buffaloes : Chart :=
  Chart.build English.grammar English.buffaloLexicon ["Buffalo", "buffalo", "Buffalo", "buffalo"]

/-- Two extractions from one chart, the second with the memory of the first. -/
theorem keys_canonical_again : ∃ memo : Memo, (0 < 100 ∧ Reached buffaloes 100 memo) ∧
    ∃ trees memo', (extractMemo buffaloes 100 Symbol.start).run memo = .ok (trees, memo') ∧
      trees.length ≤ 100 ∧ (trees.map fun tree => tree.root.canonical).Nodup := by
  have hlimit : 0 < 100 := by decide
  obtain ⟨_, memo, hrun, _⟩ := (keys_canonical English.grammar English.buffaloLexicon
    ["Buffalo", "buffalo", "Buffalo", "buffalo"] hlimit .fresh).2 Symbol.start
  have hreached := Reached.fresh.extract hrun
  exact ⟨memo, ⟨hlimit, hreached⟩, (keys_canonical _ _ _ hlimit hreached).2 Symbol.start⟩

end Earley.Forest
