import Earley.Proofs.Forest.Memo

namespace Earley.Forest

variable {c : Chart} {limit : Nat}

/-- The parse of a complete item with given children, and its canonical form. -/
def entry (sentence : List String) (weight : Weight) (k : Keyed) : Parse × String :=
  (⟨k.tree, sentence, some weight⟩, k.key)

/-- All that the complete items of a symbol offer. -/
def entries (c : Chart) (alts : Item → List Partial) (items : List Item) : List (Parse × String) :=
  items.flatMap fun item =>
    ((alts item).map (Partial.close item)).map (entry c.tokens item.rule.weight)

/-- Of the parses seen so far those are harvested that come first with their forms, up to the bound. -/
structure Harvested (limit : Nat) (seen : List (Parse × String)) (h : Harvest) : Prop where
  parses : h.parses.toList = ((firstBy Prod.snd seen).take limit).map Prod.fst
  keys : h.keys.toList = ((firstBy Prod.snd seen).take limit).map Prod.snd

namespace Harvested

variable {seen : List (Parse × String)} {h : Harvest}

theorem nil (limit : Nat) : Harvested limit [] {} := by
  constructor <;> simp [firstBy]

/-- As many trees are harvested as there are different keys among those seen, up to the limit. -/
theorem size_eq (hh : Harvested limit seen h) :
    h.parses.size = ((firstBy Prod.snd seen).take limit).length := by
  rw [← Array.length_toList, hh.parses, List.length_map]

/-- Once the limit is reached, nothing more is harvested, whatever else is seen. -/
theorem append_of_full (hh : Harvested limit seen h) (hfull : limit ≤ h.parses.size)
    (more : List (Parse × String)) : Harvested limit (seen ++ more) h := by
  rw [hh.size_eq] at hfull
  constructor
  · rw [take_firstBy_append hfull]
    exact hh.parses
  · rw [take_firstBy_append hfull]
    exact hh.keys

/-- The trees of one item are seen one after another; it is told whether the limit was reached. -/
theorem take (hh : Harvested limit seen h) (hroom : h.parses.size < limit) (sentence : List String)
    (weight : Weight) (ks : List Keyed) :
    Harvested limit (seen ++ ks.map (entry sentence weight)) (h.take limit sentence weight ks).1 ∧
      ((h.take limit sentence weight ks).2 = true ↔
        limit ≤ (h.take limit sentence weight ks).1.parses.size) := by
  induction ks generalizing seen h with
  | nil =>
    rw [List.map_nil, List.append_nil]
    exact ⟨hh, by simpa [Harvest.take] using hroom⟩
  | cons k rest ih =>
    rw [List.map_cons, ← List.singleton_append, ← List.append_assoc]
    have hnotfull : ¬ limit ≤ ((firstBy Prod.snd seen).take limit).length := by
      rw [← hh.size_eq]
      omega
    have hcontains : h.keys.contains k.key = true ↔
        k.key ∈ ((firstBy Prod.snd seen).take limit).map Prod.snd := by
      rw [← hh.keys]
      simp
    have hsnoc : (firstBy Prod.snd (seen ++ [entry sentence weight k])).take limit = _ :=
      take_firstBy_snoc limit seen _
    by_cases hkey : k.key ∈ ((firstBy Prod.snd seen).take limit).map Prod.snd
    · rw [if_pos (.inr (by exact hkey))] at hsnoc
      rw [Harvest.take, if_pos (hcontains.2 hkey)]
      refine ih ⟨?_, ?_⟩ hroom
      · rw [hsnoc]
        exact hh.parses
      · rw [hsnoc]
        exact hh.keys
    · rw [if_neg (not_or.2 ⟨hnotfull, by exact hkey⟩)] at hsnoc
      rw [Harvest.take, if_neg (mt hcontains.1 hkey)]
      have hpushed : Harvested limit (seen ++ [entry sentence weight k])
          ⟨h.parses.push ⟨k.tree, sentence, some weight⟩, h.keys.push k.key⟩ := by
        constructor
        · rw [hsnoc, List.map_append, Array.toList_push, hh.parses]
          rfl
        · rw [hsnoc, List.map_append, Array.toList_push, hh.keys]
          rfl
      simp only []
      split
      · next hfull => exact ⟨hpushed.append_of_full hfull _, by simpa using hfull⟩
      · next hfull => exact ih hpushed (Nat.not_le.1 hfull)

variable {h' : Harvest} {sentence : List String} {weight : Weight} {ks : List Keyed}

/-- If the limit was reached, what is left to see does not count. -/
theorem take_full (hh : Harvested limit seen h) (hroom : h.parses.size < limit)
    (heq : h.take limit sentence weight ks = (h', true)) (more : List (Parse × String)) :
    Harvested limit (seen ++ ks.map (entry sentence weight) ++ more) h' := by
  have htaken := hh.take hroom sentence weight ks
  rw [heq] at htaken
  exact htaken.1.append_of_full (htaken.2.1 rfl) more

/-- If the limit was not reached, there is room for more. -/
theorem take_room (hh : Harvested limit seen h) (hroom : h.parses.size < limit)
    (heq : h.take limit sentence weight ks = (h', false)) :
    Harvested limit (seen ++ ks.map (entry sentence weight)) h' ∧ h'.parses.size < limit := by
  have htaken := hh.take hroom sentence weight ks
  rw [heq] at htaken
  exact ⟨htaken.1, Nat.not_le.1 fun hle => Bool.false_ne_true (htaken.2.2 hle)⟩

end Harvested

/-- What an item offers is seen before what the others offer. -/
theorem append_entries_cons (seen : List (Parse × String)) (alts : Item → List Partial) (item : Item)
    (rest : List Item) : seen ++ entries c alts (item :: rest) =
      seen ++ ((alts item).map (Partial.close item)).map (entry c.tokens item.rule.weight) ++
        entries c alts rest := by
  rw [entries, List.flatMap_cons, List.append_assoc]
  rfl

private theorem harvestFrom_eq {close : Item → StateT Memo (Except Fault) Closed} {items : List Item}
    (hclose : ∀ item ∈ items, Expands c limit []
      (fun q => (alternatives c (some limit) q item).map (Partial.close item)) (close item))
    {seen : List (Parse × String)} {h : Harvest} (hh : Harvested limit seen h)
    (hroom : h.parses.size < limit) {memo : Memo} (hmemo : Remembers c limit memo) :
    ∃ memo', (harvestFrom c limit close items h).run memo = .ok
        (((firstBy Prod.snd (seen ++ entries c (alternatives c (some limit) []) items)).take limit).map
          Prod.fst, memo') ∧ Remembers c limit memo' := by
  have hempty : Clear c memo [] := fun id hid => absurd hid List.not_mem_nil
  induction items generalizing seen h memo with
  | nil =>
    refine ⟨memo, ?_, hmemo⟩
    rw [harvestFrom, hh.parses, entries, List.flatMap_nil, List.append_nil]
    rfl
  | cons item rest ih =>
    obtain ⟨found, cut, memo', hrun, hanswers⟩ := hclose item (by simp) memo hmemo hempty
    rw [harvestFrom, run_bind_ok hrun, append_entries_cons, ← hanswers.found_eq]
    simp only []
    split
    · next h' heq =>
      refine ⟨memo', ?_, hanswers.remembers⟩
      rw [← (hh.take_full hroom heq _).parses]
      rfl
    · next h' heq =>
      obtain ⟨hmore, hroom'⟩ := hh.take_room hroom heq
      exact ih (fun other hother => hclose other (by simp [hother])) hmore hroom' hanswers.remembers
        hanswers.clear

/-- More than the items off any path: the fuel of an extraction lasts. -/
theorem offPath_lt_fuelFor (c : Chart) (path : List Nat) : (offPath c path).length < fuelFor c := by
  have hle := List.length_filter_le (· ∉ path) (List.range c.items.size)
  rw [List.length_range] at hle
  rw [offPath, fuelFor]
  omega

/-- The first parses, up to a bound, of all that the complete items of a symbol offer. -/
def firstParses (c : Chart) (limit : Nat) (symbol : Symbol) : List Parse :=
  ((firstBy Prod.snd (entries c (alternatives c (some limit) []) (c.completed symbol))).take limit).map
    Prod.fst

/-- Extraction finds every reference in place and gives the first parses; what is remembered before
does not matter. -/
theorem extractMemo_eq (hlinked : Linked c) (hlimit : 0 < limit) {symbol : Symbol}
    (hcompleted : ∀ item ∈ c.completed symbol, ∃ i : Nat, c.items[i]? = some item) {memo : Memo}
    (hmemo : Remembers c limit memo) :
    ∃ memo', (extractMemo c limit symbol).run memo = .ok (firstParses c limit symbol, memo') ∧
      Remembers c limit memo' := by
  refine harvestFrom_eq (fun item hmem => ?_) (.nil limit) hlimit hmemo
  obtain ⟨i, hi⟩ := hcompleted item hmem
  exact closeMemo_expands (hlinked.id_eq hi) hi (expandMemo_expands hlinked (offPath_lt_fuelFor c []) hi)

/-- Without a fault, the trees of a symbol are the first of each key among what its finished items offer. -/
theorem extract_eq (hlinked : Linked c) (hlimit : 0 < limit) {symbol : Symbol}
    (hcompleted : ∀ item ∈ c.completed symbol, ∃ i : Nat, c.items[i]? = some item) :
    extract c limit symbol = .ok (firstParses c limit symbol) := by
  obtain ⟨memo, hrun, _⟩ := extractMemo_eq hlinked hlimit hcompleted (remembers_empty c limit)
  have hfirst : extract c limit symbol = ((extractMemo c limit symbol).run {}).map Prod.fst := rfl
  rw [hfirst, hrun]
  rfl

end Earley.Forest
