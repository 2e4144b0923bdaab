import Earley.Proofs.Chart.Made
import Earley.Proofs.Forest.Harvest
import Earley.Proofs.Forest.Sound

namespace Earley.Forest

variable {c : Chart} {limit : Nat} {path : List Nat}

/-- An action that comes to its end with what is to be found, cut off below or not. -/
def Finds {α : Type} (act : Except Fault (α × Bool)) (found : α) : Prop :=
  ∃ cut, act = .ok (found, cut)

/-- Following edges over items whose alternatives are found, after some others that were seen. -/
theorem followEdges_finds (hlinked : Linked c) {alts : Item → List Partial}
    {expand : Item → Except Fault Expansion} {close : Item → Except Fault Closed}
    (hexpand : ∀ {i : Nat} {other : Item}, c.items[i]? = some other → Finds (expand other) (alts other))
    (hclose : ∀ {i : Nat} {other : Item}, c.items[i]? = some other →
      Finds (close other) ((alts other).map (Partial.close other)))
    {i : Nat} {item : Item} (hitem : c.items[i]? = some item) (hdot : item.dot ≠ 0)
    {edges : List Edge} (hedges : ∀ e ∈ edges, e ∈ c.edgesOf i) {seen : List Partial}
    {found : Array Partial} (hfound : Gathered limit seen found) (cut : Bool) :
    Finds (followEdges c limit expand close item edges found cut)
      ((firstBy Partial.key (seen ++ edges.flatMap (along c alts item))).take limit) := by
  induction edges generalizing seen found cut with
  | nil =>
    refine ⟨cut, ?_⟩
    rw [followEdges, hfound, List.flatMap_nil, List.append_nil]
    rfl
  | cons e rest ih =>
    rw [List.flatMap_cons, ← List.append_assoc]
    by_cases hroom : limit ≤ found.size
    · refine ⟨cut, ?_⟩
      rw [followEdges_full hroom, List.append_assoc, ← hfound.append_of_full hroom _]
      rfl
    · obtain ⟨previous, hprevious⟩ := hlinked.previous hitem e (hedges e (by simp))
      obtain ⟨k, hk⟩ := exists_getElem_of_item? hprevious
      obtain ⟨cutBefore, hbefore⟩ := hexpand hk
      have hrest {children : Partial → List Keyed}
          (halong : along c alts item e = (alts previous).flatMap (grown children)) (cut' : Bool) :
          Finds (followEdges c limit expand close item rest (keepAll limit children (alts previous) found)
            cut') ((firstBy Partial.key (seen ++ along c alts item e ++
              rest.flatMap (along c alts item))).take limit) := by
        refine ih (fun e' he' => hedges e' (by simp [he'])) ?_ cut'
        rw [halong]
        exact hfound.keepAll children (alts previous)
      cases hchild : e.child with
      | none =>
        obtain ⟨symbol, hsymbol⟩ := hlinked.symbol hitem hdot
        rw [followEdges_leaf hroom hprevious hchild hsymbol, hbefore]
        exact hrest (along_leaf hprevious hchild hsymbol) _
      | some id =>
        obtain ⟨child, hinside⟩ := hlinked.child hitem e (hedges e (by simp)) id hchild
        obtain ⟨k', hk'⟩ := exists_getElem_of_item? hinside
        obtain ⟨cutInside, hnodes⟩ := hclose hk'
        rw [followEdges_child hroom hprevious hchild hinside, hbefore]
        simp only [bind, Except.bind, hnodes]
        exact hrest (along_child hprevious hchild hinside) _

private theorem closePlain_finds {expand : Item → Except Fault Expansion} {item : Item} {found : List Partial}
    (hexpand : Finds (expand item) found) :
    Finds (closePlain expand item) (found.map (Partial.close item)) := by
  obtain ⟨cut, heq⟩ := hexpand
  exact ⟨cut, by rw [closePlain, heq]; rfl⟩

/-- The expansion of an item below a path finds its alternatives below that path. -/
theorem expand_finds (hlinked : Linked c) {fuel : Nat} (hfuel : (offPath c path).length < fuel)
    {i : Nat} {item : Item} (hitem : c.items[i]? = some item) :
    Finds (expand c limit fuel path item) (alternatives c (some limit) path item) := by
  induction fuel generalizing path i item with
  | zero => omega
  | succ fuel ih =>
    obtain rfl := hlinked.id_eq hitem
    have hlt := (Array.getElem?_eq_some_iff.1 hitem).1
    rw [expand]
    by_cases hmem : item.id ∈ path
    · rw [if_pos (by simpa using hmem), alternatives_of_mem hmem]
      exact ⟨true, rfl⟩
    by_cases hdot : item.dot = 0
    · rw [if_neg (by simpa using hmem), if_pos hdot, alternatives_start hlt hmem hdot]
      exact ⟨false, rfl⟩
    rw [if_neg (by simpa using hmem), if_neg hdot, alternatives_eq hlt hmem hdot]
    have hshorter := offPath_cons_lt hlt hmem
    have hexpand {k : Nat} {other : Item} (hother : c.items[k]? = some other) :
        Finds (expand c limit fuel (item.id :: path) other)
          (alternatives c (some limit) (item.id :: path) other) := ih (by omega) hother
    exact followEdges_finds hlinked hexpand (fun hother => closePlain_finds (hexpand hother)) hitem hdot
      (fun _ he => he) (.nil limit) false

private theorem harvestFrom_finds {close : Item → Except Fault Closed} {alts : Item → List Partial}
    {items : List Item}
    (hclose : ∀ item ∈ items, Finds (close item) ((alts item).map (Partial.close item)))
    {seen : List (Parse × String)} {h : Harvest} (hh : Harvested limit seen h)
    (hroom : h.parses.size < limit) : harvestFrom c limit close items h =
      .ok (((firstBy Prod.snd (seen ++ entries c alts items)).take limit).map Prod.fst) := by
  induction items generalizing seen h with
  | nil =>
    rw [harvestFrom, hh.parses, entries, List.flatMap_nil, List.append_nil]
    rfl
  | cons item rest ih =>
    obtain ⟨cut, hfound⟩ := hclose item (by simp)
    rw [harvestFrom, hfound, append_entries_cons]
    simp only [bind, Except.bind]
    split
    · next h' heq =>
      rw [← (hh.take_full hroom heq _).parses]
      rfl
    · next h' heq =>
      obtain ⟨hmore, hroom'⟩ := hh.take_room hroom heq
      exact ih (fun other hother => hclose other (by simp [hother])) hmore hroom'

/-- With nothing remembered, extraction gives what it gives with everything remembered. -/
theorem extractPlain_eq (hlinked : Linked c) (hlimit : 0 < limit) {symbol : Symbol}
    (hcompleted : ∀ item ∈ c.completed symbol, ∃ i : Nat, c.items[i]? = some item) :
    extractPlain c limit symbol = .ok (firstParses c limit symbol) := by
  refine harvestFrom_finds (fun item hmem => ?_) (.nil limit) hlimit
  obtain ⟨i, hi⟩ := hcompleted item hmem
  exact closePlain_finds (expand_finds hlinked (offPath_lt_fuelFor c []) hi)

private theorem mapM_extractMemo (hlinked : Linked c) (hlimit : 0 < limit)
    (hcompleted : ∀ symbol, ∀ item ∈ c.completed symbol, ∃ i : Nat, c.items[i]? = some item)
    (symbols : List Symbol) {memo : Memo} (hmemo : Remembers c limit memo) :
    ∃ memo', (symbols.mapM (extractMemo c limit)).run memo =
      .ok (symbols.map (firstParses c limit), memo') := by
  induction symbols generalizing memo with
  | nil => exact ⟨memo, rfl⟩
  | cons symbol rest ih =>
    obtain ⟨memo₁, hfirst, hmemo₁⟩ := extractMemo_eq hlinked hlimit (hcompleted symbol) hmemo
    obtain ⟨memo₂, hrest⟩ := ih hmemo₁
    refine ⟨memo₂, ?_⟩
    rw [List.mapM_cons, run_bind_ok hfirst, run_bind_ok hrest]
    rfl

/-- In the chart of a sentence, and in any chart made by hand of which the dots and references are in
range, extractions that share what they remember give the same parses as extractions that remember
nothing. -/
theorem extract_sequence_eq
    (hc : (∃ g lex tokens, c = Chart.build g lex tokens) ∨ c.Made ∧ InRange c) (hlimit : 0 < limit)
    (symbols : List Symbol) :
    ∃ answers memo, (symbols.mapM (extractMemo c limit)).run {} = .ok (answers, memo) ∧
      symbols.mapM (extractPlain c limit) = .ok answers := by
  obtain ⟨hmade, hrange⟩ : c.Made ∧ InRange c := by
    rcases hc with ⟨g, lex, tokens, rfl⟩ | hmade
    · exact ⟨Chart.build_made g lex tokens, build_inRange g lex tokens⟩
    · exact hmade
  have hlinked := hrange.linked hmade.coherent
  have hcompleted (symbol : Symbol) (item : Item) (hmem : item ∈ c.completed symbol) :
      ∃ i : Nat, c.items[i]? = some item := by
    have hcolumn : item ∈ c.column (c.columns.size - 1) :=
      Array.mem_toList_iff.1 (List.mem_filter.1 hmem).1
    exact ⟨item.id, hmade.coherent.items_of_column hcolumn⟩
  obtain ⟨memo, hrun⟩ := mapM_extractMemo hlinked hlimit hcompleted symbols (remembers_empty c limit)
  have hplain : extractPlain c limit = fun symbol => pure (firstParses c limit symbol) :=
    funext fun symbol => extractPlain_eq hlinked hlimit (hcompleted symbol)
  refine ⟨_, memo, hrun, ?_⟩
  rw [hplain, List.mapM_pure]
  rfl

/-- A chart made by hand in which an item is reached over itself. -/
def looped : Chart :=
  let word : Rule := ⟨"S", ["N"], Binary64.one⟩
  let unit : Rule := ⟨"S", ["S"], Binary64.one⟩
  let c := ((((Chart.empty ["x"]).insert 0 word 0 0).2.insert 0 unit 0 0).2.insert 1 word 1 0).2.insert 1
    unit 1 0
  ((c.2.addEdge 3 { previous := 1, child := some 3 }).addEdge 3 { previous := 1, child := some 2 }).addEdge 2
    { previous := 0, word := some "x" }

/-- The chart was made by changes, as others can make it. -/
theorem looped_made : looped.Made := by
  refine .addEdge (.addEdge (.addEdge ?_ _ _) _ _) _ _
  refine .insert_natCast ?_ (by decide) _ _ _
  refine .insert_natCast ?_ (by decide) _ _ _
  refine .insert_natCast ?_ (by decide) _ _ _
  exact .insert_natCast (.empty ["x"]) (by decide) _ _ _

/-- All edges of the chart lead to items that are there. -/
theorem looped_inRange : InRange looped := by
  have hitems : ∀ item ∈ looped.items.toList,
      (item.dot ≠ 0 → 0 ≤ item.dot - 1 ∧ item.dot - 1 < item.rule.rhs.length) ∧
      ∀ e ∈ looped.edgesOf item.id, (0 ≤ e.previous ∧ e.previous < looped.items.size) ∧
        ∀ id ∈ e.child, 0 ≤ id ∧ id < looped.items.size := by decide
  have hmem {j : Nat} {item : Item} (h : item ∈ looped.column j) : item ∈ looped.items.toList :=
    Array.mem_toList_iff.2 (Array.mem_of_getElem? (looped_made.coherent.items_of_column h))
  exact ⟨by decide, fun h => (hitems _ (hmem h)).1, fun h e he => ((hitems _ (hmem h)).2 e he).1,
    fun h e he => ((hitems _ (hmem h)).2 e he).2⟩

/-- Three extractions in a row from a chart whose edges lead in circles. -/
theorem extract_sequence_eq_looped : (looped.Made ∧ InRange looped) ∧
    ∃ answers memo, (["S", "N", "S"].mapM (extractMemo looped 2)).run {} = .ok (answers, memo) ∧
      ["S", "N", "S"].mapM (extractPlain looped 2) = .ok answers :=
  ⟨⟨looped_made, looped_inRange⟩,
    extract_sequence_eq (.inr ⟨looped_made, looped_inRange⟩) (by decide) ["S", "N", "S"]⟩

end Earley.Forest
