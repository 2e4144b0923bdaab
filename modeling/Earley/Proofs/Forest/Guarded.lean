import Earley.Proofs.Forest.Plain
import Mathlib.Data.Finset.Basic
import Mathlib.Data.Finset.Dedup

namespace Earley

namespace Forest

/-- What an extractor keeps: what it remembers, and the items that are being expanded. -/
structure Extractor where
  memo : Memo := {}
  visiting : Finset Nat := ∅

namespace Extractor

def enter (s : Extractor) (id : Nat) : Extractor := { s with visiting := insert id s.visiting }

def leave (s : Extractor) (id : Nat) : Extractor := { s with visiting := s.visiting.erase id }

def keepPartials (s : Extractor) (id : Nat) (found : List Partial) : Extractor :=
  { s with memo := s.memo.keepPartials id found }

def keepTrees (s : Extractor) (id : Nat) (found : List Keyed) : Extractor :=
  { s with memo := s.memo.keepTrees id found }

end Extractor

/-- An action of an extractor: it ends with an answer or a fault, or it has no result. -/
abbrev Run := StateT Extractor (ExceptT Fault Option)

end Forest

namespace Chart

open Forest

mutual

/-- The expansion of an item, which is in the set while its edges are followed. -/
def expandGuarded (c : Chart) (limit : Nat) (item : Item) : Run Expansion := do
  match (← get).memo.partials[item.id]? with
  | some known => pure (known, false)
  | none =>
    if item.id ∈ (← get).visiting then pure ([], true)
    else if item.dot = 0 then pure ([start item], false)
    else
      modify (·.enter item.id)
      let (found, cut) ← c |>.followGuarded limit item (c.edgesOf item.id) #[] false
      modify (·.leave item.id)
      unless cut do modify (·.keepPartials item.id found)
      pure (found, cut)
partial_fixpoint

/-- The trees of a complete item. -/
def closeGuarded (c : Chart) (limit : Nat) (item : Item) : Run Closed := do
  match (← get).memo.trees[item.id]? with
  | some known => pure (known, false)
  | none =>
    let (found, cut) ← c |>.expandGuarded limit item
    let nodes := found.map (Partial.close item)
    unless cut do modify (·.keepTrees item.id nodes)
    pure (nodes, cut)
partial_fixpoint

/-- Follows the edges of an item one after the other. -/
def followGuarded (c : Chart) (limit : Nat) (item : Item) (edges : List Edge) (found : Array Partial)
    (cut : Bool) : Run Expansion :=
  match edges with
  | [] => pure (found.toList, cut)
  | edge :: rest =>
    if limit ≤ found.size then pure (found.toList, cut)
    else do
      let previous ← itemOf c edge.previous
      let (before, cutBefore) ← c |>.expandGuarded limit previous
      match edge.child with
      | none =>
        match item.symbolAt? (item.dot - 1) with
        | none => throw .noSymbol
        | some symbol =>
          c |>.followGuarded limit item rest
            (keepAll limit (fun p => [leafAfter symbol edge p]) before found) (cut || cutBefore)
      | some id =>
        let child ← itemOf c id
        let (inside, cutInside) ← c |>.closeGuarded limit child
        c |>.followGuarded limit item rest
          (keepAll limit (fun _ => inside) before found) (cut || cutBefore || cutInside)
partial_fixpoint

end

end Chart

namespace Forest

/-- All trees for `symbol` over the whole input, up to `limit`. -/
def extractGuarded (c : Chart) (limit : Nat) (symbol : Symbol) : Run (List Parse) :=
  harvestFrom c limit (c.closeGuarded limit) (c.completed symbol) {}

variable {c : Chart} {limit : Nat} {visiting : Finset Nat}

/-- An action that ends with an answer and leaves the items under expansion as they were, and in this
and in what it remembers does what another one does that is told these items. -/
def EndsAs {α : Type} (visiting : Finset Nat) (act : Run α) (told : StateT Memo (Except Fault) α) :
    Prop :=
  ∀ memo, ∃ answer memo', told.run memo = .ok (answer, memo') ∧
    (act.run ⟨memo, visiting⟩).run = some (.ok (answer, ⟨memo', visiting⟩))

private theorem guarded_bind_ok {α β : Type} {act : Run α} {s s' : Extractor} {a : α} {next : α → Run β}
    (h : (act.run s).run = some (.ok (a, s'))) :
    ((act >>= next).run s).run = ((next a).run s').run := by
  rw [StateT.run_bind, ExceptT.run_bind, h]
  rfl

namespace EndsAs

/-- A run that only gives a value ends with it. -/
theorem pure {α : Type} (visiting : Finset Nat) (a : α) : EndsAs visiting (pure a) (pure a) :=
  fun memo => ⟨a, memo, rfl, rfl⟩

/-- Two runs one after the other end as the runs that they stand for. -/
theorem bind {α β : Type} {act : Run α} {told : StateT Memo (Except Fault) α} {next : α → Run β}
    {next' : α → StateT Memo (Except Fault) β} (h : EndsAs visiting act told)
    (hnext : ∀ a, EndsAs visiting (next a) (next' a)) :
    EndsAs visiting (act >>= next) (told >>= next') := by
  intro memo
  obtain ⟨a, memo₁, htold, hact⟩ := h memo
  obtain ⟨b, memo₂, htold', hact'⟩ := hnext a memo₁
  exact ⟨b, memo₂, by rw [run_bind_ok htold, htold'], by rw [guarded_bind_ok hact, hact']⟩

/-- What is remembered may be looked at first. -/
theorem get {α : Type} {next : Extractor → Run α} {next' : Memo → StateT Memo (Except Fault) α}
    (h : ∀ memo, EndsAs visiting (next ⟨memo, visiting⟩) (next' memo)) :
    EndsAs visiting (MonadState.get >>= next) (MonadState.get >>= next') :=
  fun memo => h memo memo

private theorem get_left {α : Type} {next : Extractor → Run α} {told : StateT Memo (Except Fault) α}
    (h : ∀ memo, EndsAs visiting (next ⟨memo, visiting⟩) told) :
    EndsAs visiting (MonadState.get >>= next) told :=
  fun memo => h memo memo

/-- What is found is remembered unless it was cut short. -/
theorem keep {α : Type} (found : α) (cut : Bool) {kept : Extractor → Extractor} {kept' : Memo → Memo}
    (h : ∀ memo, kept ⟨memo, visiting⟩ = ⟨kept' memo, visiting⟩) :
    EndsAs visiting
      (do unless cut do modify kept
          return (found, cut))
      (do unless cut do modify kept'
          return (found, cut)) := by
  intro memo
  cases cut with
  | true => exact ⟨(found, true), memo, rfl, rfl⟩
  | false => exact ⟨(found, false), kept' memo, rfl, by rw [← h]; rfl⟩

/-- What is done with one item more under expansion leaves the others there. -/
theorem within {α β : Type} {act : Run α} {told : StateT Memo (Except Fault) α} {next : α → Run β}
    {next' : α → StateT Memo (Except Fault) β} {id : Nat} (hid : id ∉ visiting)
    (h : EndsAs (insert id visiting) act told) (hnext : ∀ a, EndsAs visiting (next a) (next' a)) :
    EndsAs visiting
      (do modify (·.enter id)
          let a ← act
          modify (·.leave id)
          next a)
      (told >>= next') := by
  intro memo
  obtain ⟨a, memo₁, htold, hact⟩ := h memo
  obtain ⟨b, memo₂, htold', hnext⟩ := hnext a memo₁
  refine ⟨b, memo₂, by rw [run_bind_ok htold, htold'], ?_⟩
  have hleave : Extractor.leave ⟨memo₁, insert id visiting⟩ id = ⟨memo₁, visiting⟩ := by
    rw [Extractor.leave, Finset.erase_insert hid]
  have hact' : (act.run (Extractor.enter ⟨memo, visiting⟩ id)).run =
      some (.ok (a, ⟨memo₁, insert id visiting⟩)) := hact
  calc _ = ((act >>= fun a => do modify (·.leave id); next a).run
        (Extractor.enter ⟨memo, visiting⟩ id)).run := rfl
    _ = ((next a).run (Extractor.leave ⟨memo₁, insert id visiting⟩ id)).run := guarded_bind_ok hact'
    _ = some (.ok (b, ⟨memo₂, visiting⟩)) := by rw [hleave, hnext]

end EndsAs

private theorem followGuarded_eq (item : Item) (edges : List Edge) (found : Array Partial) (cut : Bool) :
    c.followGuarded limit item edges found cut =
      followEdges c limit (c.expandGuarded limit) (c.closeGuarded limit) item edges found cut := by
  induction edges generalizing found cut with
  | nil => rw [Chart.followGuarded, followEdges]
  | cons e rest ih =>
    have hrest : c.followGuarded limit item rest =
        followEdges c limit (c.expandGuarded limit) (c.closeGuarded limit) item rest :=
      funext fun found => funext fun cut => ih found cut
    rw [Chart.followGuarded, followEdges]
    exact hrest ▸ rfl

/-- Following edges ends if what they lead to does. -/
theorem EndsAs.followEdges (limit : Nat) (hlinked : Linked c)
    {expand : Item → Run Expansion} {close : Item → Run Closed}
    {expand' : Item → StateT Memo (Except Fault) Expansion}
    {close' : Item → StateT Memo (Except Fault) Closed}
    (hexpand : ∀ {i : Nat} {other : Item}, c.items[i]? = some other →
      EndsAs visiting (expand other) (expand' other))
    (hclose : ∀ {i : Nat} {other : Item}, c.items[i]? = some other →
      EndsAs visiting (close other) (close' other))
    {i : Nat} {item : Item} (hitem : c.items[i]? = some item) (hdot : item.dot ≠ 0) {edges : List Edge}
    (hedges : ∀ e ∈ edges, e ∈ c.edgesOf i) (found : Array Partial) (cut : Bool) :
    EndsAs visiting (Forest.followEdges c limit expand close item edges found cut)
      (Forest.followEdges c limit expand' close' item edges found cut) := by
  induction edges generalizing found cut with
  | nil => exact .pure visiting _
  | cons e rest ih =>
    have hrest := ih fun e' he' => hedges e' (by simp [he'])
    by_cases hroom : limit ≤ found.size
    · rw [followEdges_full hroom, followEdges_full hroom]
      exact .pure visiting _
    · obtain ⟨previous, hprevious⟩ := hlinked.previous hitem e (hedges e (by simp))
      obtain ⟨k, hk⟩ := exists_getElem_of_item? hprevious
      cases hchild : e.child with
      | none =>
        obtain ⟨symbol, hsymbol⟩ := hlinked.symbol hitem hdot
        rw [followEdges_leaf hroom hprevious hchild hsymbol, followEdges_leaf hroom hprevious hchild hsymbol]
        exact (hexpand hk).bind fun before => hrest _ _
      | some id =>
        obtain ⟨child, hinside⟩ := hlinked.child hitem e (hedges e (by simp)) id hchild
        obtain ⟨k', hk'⟩ := exists_getElem_of_item? hinside
        rw [followEdges_child hroom hprevious hchild hinside,
          followEdges_child hroom hprevious hchild hinside]
        exact (hexpand hk).bind fun before => (hclose hk').bind fun inside => hrest _ _

/-- The trees of an item end if its expansion does. -/
theorem closeGuarded_endsAs {told : Item → StateT Memo (Except Fault) Expansion} {item : Item}
    (hexpand : EndsAs visiting (c.expandGuarded limit item) (told item)) :
    EndsAs visiting (c.closeGuarded limit item) (closeMemo told item) := by
  rw [Chart.closeGuarded, closeMemo]
  refine .get fun memo => ?_
  dsimp only
  cases memo.trees[item.id]? with
  | some known => exact .pure visiting _
  | none =>
    rw [closePlain, bind_assoc]
    refine hexpand.bind fun answer => ?_
    obtain ⟨found, cut⟩ := answer
    rw [pure_bind]
    exact .keep _ cut fun memo => rfl

/-- The expansion of an item ends below every path: each call that follows edges has one item more
under expansion, and there are no more than the chart has. -/
theorem expandGuarded_endsAs (hlinked : Linked c) {fuel : Nat} {path : List Nat}
    (hfuel : (offPath c path).length < fuel) {i : Nat} {item : Item} (hitem : c.items[i]? = some item) :
    EndsAs path.toFinset (c.expandGuarded limit item) (expandMemo c limit fuel path item) := by
  induction fuel generalizing path i item with
  | zero => omega
  | succ fuel ih =>
    obtain rfl := hlinked.id_eq hitem
    have hlt := (Array.getElem?_eq_some_iff.1 hitem).1
    rw [Chart.expandGuarded, expandMemo]
    refine .get fun memo => ?_
    dsimp only
    cases memo.partials[item.id]? with
    | some known => exact .pure _ _
    | none =>
      refine .get_left fun memo => ?_
      have hvisiting : item.id ∈ path.toFinset ↔ path.contains item.id = true := by simp
      by_cases hmem : item.id ∈ path.toFinset
      · rw [if_pos hmem, if_pos (hvisiting.1 hmem)]
        exact .pure _ _
      · rw [if_neg hmem, if_neg (mt hvisiting.2 hmem)]
        by_cases hdot : item.dot = 0
        · rw [if_pos hdot, if_pos hdot]
          exact .pure _ _
        · have hshorter := offPath_cons_lt hlt (mt List.mem_toFinset.2 hmem)
          have hexpand {k : Nat} {other : Item} (hother : c.items[k]? = some other) :
              EndsAs (insert item.id path.toFinset) (c.expandGuarded limit other)
                (expandMemo c limit fuel (item.id :: path) other) := by
            rw [← List.toFinset_cons]
            exact ih (by omega) hother
          have hfollow := EndsAs.followEdges limit hlinked hexpand
            (fun hother => closeGuarded_endsAs (hexpand hother)) hitem hdot (fun _ he => he) #[] false
          rw [← followGuarded_eq] at hfollow
          rw [if_neg hdot, if_neg hdot]
          exact hfollow.within hmem fun answer => .keep answer.1 answer.2 fun _ => rfl

/-- Taking trees ends if each item's trees do, and with no more parses than the bound. -/
theorem harvestFrom_ends {close : Item → Run Closed} {close' : Item → StateT Memo (Except Fault) Closed}
    {items : List Item} (hclose : ∀ item ∈ items, EndsAs visiting (close item) (close' item))
    {seen : List (Parse × String)} {h : Harvest} (hh : Harvested limit seen h)
    (hroom : h.parses.size < limit) (memo : Memo) :
    ∃ parses memo', (harvestFrom c limit close' items h).run memo = .ok (parses, memo') ∧
      ((harvestFrom c limit close items h).run ⟨memo, visiting⟩).run =
        some (.ok (parses, ⟨memo', visiting⟩)) ∧ parses.length ≤ limit := by
  induction items generalizing seen h memo with
  | nil => exact ⟨h.parses.toList, memo, rfl, rfl, by simpa using hroom.le⟩
  | cons item rest ih =>
    obtain ⟨⟨found, cut⟩, memo', htold, hact⟩ := hclose item (by simp) memo
    rw [harvestFrom, harvestFrom, run_bind_ok htold, guarded_bind_ok hact]
    simp only []
    split
    · next h' heq =>
      have hfull := (hh.take_full hroom heq []).parses
      refine ⟨h'.parses.toList, memo', rfl, rfl, ?_⟩
      rw [hfull, List.length_map, List.length_take]
      exact Nat.min_le_left _ _
    · next h' heq =>
      obtain ⟨hmore, hroom'⟩ := hh.take_room hroom heq
      exact ih (fun other hother => hclose other (by simp [hother])) hmore hroom' memo'

/-- On a chart made by hand of which the dots and references are in range every extraction ends
without a fault, whatever it remembers and whatever is under expansion when it starts. It gives no more
parses than the bound allows, leaves the items under expansion as they were, and, when there are none
of these, gives the same as the extraction that is told its path. -/
theorem extractGuarded_ends (hmade : c.Made) (hrange : InRange c) (hlimit : 0 < limit) (symbol : Symbol)
    (s : Extractor) :
    ∃ parses memo,
      ((extractGuarded c limit symbol).run s).run = some (.ok (parses, ⟨memo, s.visiting⟩)) ∧
      parses.length ≤ limit ∧
      (s.visiting = ∅ → (extractMemo c limit symbol).run s.memo = .ok (parses, memo)) := by
  have hlinked := hrange.linked hmade.coherent
  have hclose (item : Item) (hmem : item ∈ c.completed symbol) : EndsAs s.visiting.toList.toFinset
      (c.closeGuarded limit item) (closeMemo (expandMemo c limit (fuelFor c) s.visiting.toList) item) := by
    have hcolumn : item ∈ c.column (c.columns.size - 1) :=
      Array.mem_toList_iff.1 (List.mem_filter.1 hmem).1
    exact closeGuarded_endsAs (expandGuarded_endsAs hlinked (offPath_lt_fuelFor c _)
      (hmade.coherent.items_of_column hcolumn))
  rw [Finset.toList_toFinset] at hclose
  obtain ⟨parses, memo, htold, hact, hlength⟩ :=
    harvestFrom_ends (c := c) hclose (.nil limit) hlimit s.memo
  refine ⟨parses, memo, hact, hlength, fun hnone => ?_⟩
  rwa [hnone, Finset.toList_empty] at htold

/-- A chart made by hand, whose edges lead in circles, is taken apart all the same. -/
theorem extractGuarded_ends_looped : (looped.Made ∧ InRange looped ∧ 0 < 2) ∧
    ∃ parses memo, ((extractGuarded looped 2 "S").run {}).run = some (.ok (parses, ⟨memo, ∅⟩)) ∧
      parses.length ≤ 2 ∧ (extractMemo looped 2 "S").run {} = .ok (parses, memo) := by
  refine ⟨⟨looped_made, looped_inRange, by decide⟩, ?_⟩
  obtain ⟨parses, memo, hrun, hlength, htold⟩ :=
    extractGuarded_ends looped_made looped_inRange (by decide : 0 < 2) "S" {}
  exact ⟨parses, memo, hrun, hlength, htold rfl⟩

end Forest

end Earley
