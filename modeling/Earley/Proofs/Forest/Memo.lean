import Earley.Proofs.Forest.Alternatives

namespace Earley.Forest

variable {c : Chart} {limit : Nat} {path : List Nat} {memo memo' memo'' : Memo}

/-- A path on which no item is remembered, and each has found something. -/
def Clear (c : Chart) (memo : Memo) (path : List Nat) : Prop :=
  ∀ id ∈ path, memo.partials[id]? = none ∧ ∀ item, c.items[id]? = some item → item.dot ≠ 0

/-- What is remembered for an item are its alternatives, whatever the path, or the trees made of
them. -/
structure Remembers (c : Chart) (limit : Nat) (memo : Memo) : Prop where
  partials : ∀ {id : Nat} {known : List Partial}, memo.partials[id]? = some known →
    ∃ item, c.items[id]? = some item ∧
      ∀ path, Clear c memo path → alternatives c (some limit) path item = known
  trees : ∀ {id : Nat} {known : List Keyed}, memo.trees[id]? = some known →
    ∃ item, c.items[id]? = some item ∧
      ∀ path, Clear c memo path → (alternatives c (some limit) path item).map (Partial.close item) = known

theorem remembers_empty (c : Chart) (limit : Nat) : Remembers c limit {} :=
  ⟨fun h => by simp at h, fun h => by simp at h⟩

/-- Every expansion that is remembered stays remembered. -/
def Grows (memo memo' : Memo) : Prop :=
  ∀ (id : Nat) (known : List Partial), memo.partials[id]? = some known → memo'.partials[id]? = some known

theorem Grows.refl (memo : Memo) : Grows memo memo :=
  fun _ _ h => h

theorem Grows.trans (h : Grows memo memo') (h' : Grows memo' memo'') : Grows memo memo'' :=
  fun id known hknown => h' id known (h id known hknown)

/-- A memory that has grown on the way is still without anything about the items of the path. -/
theorem Grows.clear (h : Grows memo memo') (hclear : Clear c memo' path) : Clear c memo path := by
  intro id hid
  refine ⟨?_, (hclear id hid).2⟩
  cases hknown : memo.partials[id]? with
  | none => rfl
  | some known =>
    have hnone := (hclear id hid).1
    rw [h id known hknown] at hnone
    cases hnone

/-- A memory grows when rows are kept for an item that had none. -/
theorem Grows.keepPartials {id : Nat} (hnew : memo.partials[id]? = none) (found : List Partial) :
    Grows memo (memo.keepPartials id found) := by
  intro id' known hknown
  rw [Memo.keepPartials, Std.HashMap.getElem?_insert]
  split
  · next heq =>
    rw [← beq_iff_eq.1 heq, hnew] at hknown
    cases hknown
  · exact hknown

/-- An expansion below a path, where `alts` tells what is to be found below each path: it is found
below this one, and below each other one too if nothing was cut off. -/
structure Answers {α : Type} (c : Chart) (limit : Nat) (path : List Nat) (alts : List Nat → α)
    (memo : Memo) (found : α) (cut : Bool) (memo' : Memo) : Prop where
  remembers : Remembers c limit memo'
  clear : Clear c memo' path
  grows : Grows memo memo'
  found_eq : alts path = found
  stable : cut = false → ∀ other, Clear c memo' other → alts other = found

/-- An action that expands as `alts` tells, whatever is remembered when it starts. -/
def Expands {α : Type} (c : Chart) (limit : Nat) (path : List Nat) (alts : List Nat → α)
    (act : StateT Memo (Except Fault) (α × Bool)) : Prop :=
  ∀ memo, Remembers c limit memo → Clear c memo path → ∃ found cut memo',
    act.run memo = .ok ((found, cut), memo') ∧ Answers c limit path alts memo found cut memo'

/-- An item that is found by an identifier stands somewhere in the list of all items. -/
theorem exists_getElem_of_item? {id : Int} {item : Item} (h : c.item? id = some item) :
    ∃ i : Nat, c.items[i]? = some item := by
  obtain ⟨i, _, hi⟩ := Option.bind_eq_some_iff.1 h
  exact ⟨i, hi⟩

/-- After a run that ended well, the next one begins with the memory that it left. -/
theorem run_bind_ok {α β : Type} {act : StateT Memo (Except Fault) α} {a : α}
    {next : α → StateT Memo (Except Fault) β} (h : act.run memo = .ok (a, memo')) :
    (act >>= next).run memo = (next a).run memo' := by
  rw [StateT.run_bind, h]
  rfl

/-- One edge, where there is room: it goes on from what the item before it is expanded to, with children
that are the leaf over its word or the trees of its item. -/
private theorem followEdges_edge (hlinked : Linked c)
    {expand : Item → StateT Memo (Except Fault) Expansion}
    {close : Item → StateT Memo (Except Fault) Closed}
    (hexpand : ∀ {i : Nat} {other : Item}, c.items[i]? = some other →
      Expands c limit path (fun q => alternatives c (some limit) q other) (expand other))
    (hclose : ∀ {i : Nat} {other : Item}, c.items[i]? = some other →
      Expands c limit path (fun q => (alternatives c (some limit) q other).map (Partial.close other))
        (close other))
    {i : Nat} {item : Item} (hitem : c.items[i]? = some item) (hdot : item.dot ≠ 0) {e : Edge}
    (hedge : e ∈ c.edgesOf i) {found : Array Partial} (hroom : ¬limit ≤ found.size)
    (hmemo : Remembers c limit memo) (hclear : Clear c memo path) (rest : List Edge) (cut : Bool) :
    ∃ before children cut' memo',
      (followEdges c limit expand close item (e :: rest) found cut).run memo =
        (followEdges c limit expand close item rest (keepAll limit children before found)
          (cut || cut')).run memo' ∧
      Answers c limit path (fun q => along c (alternatives c (some limit) q) item e) memo
        (before.flatMap (grown children)) cut' memo' := by
  obtain ⟨previous, hprevious⟩ := hlinked.previous hitem e hedge
  obtain ⟨k, hk⟩ := exists_getElem_of_item? hprevious
  obtain ⟨before, cutBefore, memo₁, hrun₁, h₁⟩ := hexpand hk memo hmemo hclear
  cases hchild : e.child with
  | none =>
    obtain ⟨symbol, hsymbol⟩ := hlinked.symbol hitem hdot
    have halong (q : List Nat) : along c (alternatives c (some limit) q) item e = _ :=
      along_leaf hprevious hchild hsymbol
    refine ⟨before, fun p => [leafAfter symbol e p], cutBefore, memo₁, ?_, h₁.remembers, h₁.clear,
      h₁.grows, ?_, fun hcut q hq => ?_⟩
    · rw [followEdges_leaf hroom hprevious hchild hsymbol, run_bind_ok hrun₁]
    · rw [halong, h₁.found_eq]
    · rw [halong, h₁.stable hcut q hq]
  | some id =>
    obtain ⟨child, hinside⟩ := hlinked.child hitem e hedge id hchild
    obtain ⟨k', hk'⟩ := exists_getElem_of_item? hinside
    obtain ⟨inside, cutInside, memo₂, hrun₂, h₂⟩ := hclose hk' memo₁ h₁.remembers h₁.clear
    have hnodes : (alternatives c (some limit) path child).map (Partial.close child) = inside :=
      h₂.found_eq
    have hsame (hcut : cutInside = false) (q : List Nat) (hq : Clear c memo₂ q) :
        (alternatives c (some limit) q child).map (Partial.close child) = inside :=
      h₂.stable hcut q hq
    have halong (q : List Nat) : along c (alternatives c (some limit) q) item e = _ :=
      along_child hprevious hchild hinside
    refine ⟨before, fun _ => inside, cutBefore || cutInside, memo₂, ?_, h₂.remembers, h₂.clear,
      h₁.grows.trans h₂.grows, ?_, fun hcut q hq => ?_⟩
    · rw [← Bool.or_assoc, followEdges_child hroom hprevious hchild hinside, run_bind_ok hrun₁]
      exact run_bind_ok hrun₂
    · rw [halong, h₁.found_eq, hnodes]
    · obtain ⟨hcut₁, hcut₂⟩ := Bool.or_eq_false_iff.1 hcut
      rw [halong, h₁.stable hcut₁ q (h₂.grows.clear hq), hsame hcut₂ q hq]

private theorem followEdges_answers (hlinked : Linked c)
    {expand : Item → StateT Memo (Except Fault) Expansion}
    {close : Item → StateT Memo (Except Fault) Closed}
    (hexpand : ∀ {i : Nat} {other : Item}, c.items[i]? = some other →
      Expands c limit path (fun q => alternatives c (some limit) q other) (expand other))
    (hclose : ∀ {i : Nat} {other : Item}, c.items[i]? = some other →
      Expands c limit path (fun q => (alternatives c (some limit) q other).map (Partial.close other))
        (close other))
    {i : Nat} {item : Item} (hitem : c.items[i]? = some item) (hdot : item.dot ≠ 0)
    {edges : List Edge} (hedges : ∀ e ∈ edges, e ∈ c.edgesOf i) (seen : List Nat → List Partial)
    {found : Array Partial} {cut : Bool} (hmemo : Remembers c limit memo)
    (hclear : Clear c memo path) (hfound : Gathered limit (seen path) found)
    (hstable : cut = false → ∀ q, Clear c memo q → Gathered limit (seen q) found) :
    ∃ result cut' memo', (followEdges c limit expand close item edges found cut).run memo =
        .ok ((result, cut'), memo') ∧
      Answers c limit path (fun q => (firstBy Partial.key (seen q ++ edges.flatMap
        (along c (alternatives c (some limit) q) item))).take limit) memo result cut' memo' := by
  induction edges generalizing seen found cut memo with
  | nil =>
    refine ⟨found.toList, cut, memo, rfl, hmemo, hclear, .refl memo, ?_, ?_⟩
    · simpa using hfound.symm
    · intro hcut q hq
      simpa using (hstable hcut q hq).symm
  | cons e rest ih =>
    by_cases hroom : limit ≤ found.size
    · refine ⟨found.toList, cut, memo, ?_, hmemo, hclear, .refl memo, ?_, ?_⟩
      · rw [followEdges_full hroom]
        rfl
      · exact (hfound.append_of_full hroom _).symm
      · intro hcut q hq
        exact ((hstable hcut q hq).append_of_full hroom _).symm
    · obtain ⟨hedge, hrest⟩ := List.forall_mem_cons.1 hedges
      obtain ⟨before, children, cut', memo', hrun, hstep⟩ :=
        followEdges_edge hlinked hexpand hclose hitem hdot hedge hroom hmemo hclear rest cut
      have hcollected : Gathered limit (seen path ++ along c (alternatives c (some limit) path) item e)
          (keepAll limit children before found) := by
        rw [hstep.found_eq]
        exact hfound.keepAll children before
      have hsame (hfalse : (cut || cut') = false) (q : List Nat) (hq : Clear c memo' q) :
          Gathered limit (seen q ++ along c (alternatives c (some limit) q) item e)
            (keepAll limit children before found) := by
        obtain ⟨hcut, hcut'⟩ := Bool.or_eq_false_iff.1 hfalse
        rw [hstep.stable hcut' q hq]
        exact (hstable hcut q (hstep.grows.clear hq)).keepAll children before
      obtain ⟨result, cut'', memo'', hrun', h⟩ :=
        ih hrest _ hstep.remembers hstep.clear hcollected hsame
      refine ⟨result, cut'', memo'', hrun.trans hrun', h.remembers, h.clear,
        hstep.grows.trans h.grows, ?_, ?_⟩
      · simpa only [List.append_assoc, List.flatMap_cons] using h.found_eq
      · simpa only [List.append_assoc, List.flatMap_cons] using h.stable

/-- Following all edges of an item gives what lies along them, up to the bound. -/
theorem followEdges_expands (hlinked : Linked c)
    {expand : Item → StateT Memo (Except Fault) Expansion}
    {close : Item → StateT Memo (Except Fault) Closed}
    (hexpand : ∀ {i : Nat} {other : Item}, c.items[i]? = some other →
      Expands c limit path (fun q => alternatives c (some limit) q other) (expand other))
    (hclose : ∀ {i : Nat} {other : Item}, c.items[i]? = some other →
      Expands c limit path (fun q => (alternatives c (some limit) q other).map (Partial.close other))
        (close other))
    {i : Nat} {item : Item} (hitem : c.items[i]? = some item) (hdot : item.dot ≠ 0) :
    Expands c limit path (fun q => (firstBy Partial.key ((c.edgesOf i).flatMap
        (along c (alternatives c (some limit) q) item))).take limit)
      (followEdges c limit expand close item (c.edgesOf i) #[] false) :=
  fun _ hmemo hclear => followEdges_answers hlinked hexpand hclose hitem hdot (fun _ he => he)
    (fun _ => []) hmemo hclear (.nil limit) fun _ _ _ => .nil limit

/-- Closing an expansion to trees, and remembering the trees, answers as the expansion does. -/
theorem closeMemo_expands {expand : Item → StateT Memo (Except Fault) Expansion} {i : Nat} {item : Item}
    (hid : item.id = i) (hitem : c.items[i]? = some item)
    (hexpand : Expands c limit path (fun q => alternatives c (some limit) q item) (expand item)) :
    Expands c limit path (fun q => (alternatives c (some limit) q item).map (Partial.close item))
      (closeMemo expand item) := by
  subst hid
  intro memo hmemo hclear
  cases hknown : memo.trees[item.id]? with
  | some known =>
    obtain ⟨other, hother, hsame⟩ := hmemo.trees hknown
    obtain rfl := Option.some.inj (hother.symm.trans hitem)
    refine ⟨known, false, memo, ?_, hmemo, hclear, .refl memo, hsame path hclear, fun _ => hsame⟩
    simp [closeMemo, hknown]
    rfl
  | none =>
    obtain ⟨found, cut, memo', hrun, h⟩ := hexpand memo hmemo hclear
    have hclosed : (closePlain expand item).run memo =
        .ok ((found.map (Partial.close item), cut), memo') := by
      rw [closePlain, run_bind_ok hrun]
      rfl
    have hstable (hcut : cut = false) (q : List Nat) (hq : Clear c memo' q) :
        (alternatives c (some limit) q item).map (Partial.close item) = found.map (Partial.close item) :=
      congrArg _ (h.stable hcut q hq)
    cases cut with
    | true =>
      refine ⟨_, true, memo', ?_, h.remembers, h.clear, h.grows, congrArg _ h.found_eq, hstable⟩
      simp [closeMemo, hknown, run_bind_ok hclosed]
      rfl
    | false =>
      -- Trees are remembered beside the expansions, so that the same paths are clear as before.
      refine ⟨_, false, memo'.keepTrees item.id (found.map (Partial.close item)), ?_, ⟨?_, ?_⟩, h.clear,
        h.grows, congrArg _ h.found_eq, hstable⟩
      · simp [closeMemo, hknown, run_bind_ok hclosed]
        rfl
      · exact h.remembers.partials
      · intro id known hknown'
        rw [Memo.keepTrees, Std.HashMap.getElem?_insert] at hknown'
        split at hknown'
        · next heq =>
          obtain rfl := beq_iff_eq.1 heq
          obtain rfl := Option.some.inj hknown'
          exact ⟨item, hitem, hstable rfl⟩
        · exact h.remembers.trees hknown'

private theorem Answers.remember {item : Item} (hlinked : Linked c) {i : Nat}
    (hitem : c.items[i]? = some item) (hdot : item.dot ≠ 0) (hoff : item.id ∉ path)
    {found : List Partial} (h : Answers c limit (item.id :: path)
      (fun q => (firstBy Partial.key ((c.edgesOf item.id).flatMap
        (along c (alternatives c (some limit) q) item))).take limit) memo found false memo') :
    Answers c limit path (fun q => alternatives c (some limit) q item) memo found false
      (memo'.keepPartials item.id found) := by
  obtain rfl := hlinked.id_eq hitem
  have hlt := (Array.getElem?_eq_some_iff.1 hitem).1
  have hgrows := Grows.keepPartials (h.clear item.id (by simp)).1 found
  -- The item itself is on no path that is clear now.
  have hsame (q : List Nat) (hq : Clear c (memo'.keepPartials item.id found) q) :
      alternatives c (some limit) q item = found := by
    have hoff' : item.id ∉ q := by
      intro hmem
      have hnone := (hq item.id hmem).1
      simp [Memo.keepPartials] at hnone
    rw [alternatives_eq hlt hoff' hdot]
    refine h.stable rfl (item.id :: q) fun id hid => ?_
    rcases List.mem_cons.1 hid with rfl | hid
    · exact h.clear _ (by simp)
    · exact hgrows.clear hq id hid
  refine ⟨⟨?_, ?_⟩, ?_, h.grows.trans hgrows, ?_, fun _ => hsame⟩
  · intro id known hknown
    rw [Memo.keepPartials, Std.HashMap.getElem?_insert] at hknown
    split at hknown
    · next heq =>
      obtain rfl := beq_iff_eq.1 heq
      obtain rfl := Option.some.inj hknown
      exact ⟨item, hitem, hsame⟩
    · obtain ⟨other, hother, hknown⟩ := h.remembers.partials hknown
      exact ⟨other, hother, fun q hq => hknown q (hgrows.clear hq)⟩
  · intro id known hknown
    obtain ⟨other, hother, hknown⟩ := h.remembers.trees hknown
    exact ⟨other, hother, fun q hq => hknown q (hgrows.clear hq)⟩
  · intro id hid
    have hne : item.id ≠ id := fun heq => hoff (heq ▸ hid)
    rw [Memo.keepPartials, Std.HashMap.getElem?_insert, if_neg (by simpa using hne)]
    exact h.clear id (by simp [hid])
  · rw [alternatives_eq hlt hoff hdot]
    exact h.found_eq

/-- The expansion of an item gives its alternatives: no reference is missing and the fuel lasts. -/
theorem expandMemo_expands (hlinked : Linked c) {fuel : Nat} {path : List Nat}
    (hfuel : (offPath c path).length < fuel) {i : Nat} {item : Item} (hitem : c.items[i]? = some item) :
    Expands c limit path (fun q => alternatives c (some limit) q item)
      (expandMemo c limit fuel path item) := by
  induction fuel generalizing path i item with
  | zero => omega
  | succ fuel ih =>
    intro memo hmemo hclear
    obtain rfl := hlinked.id_eq hitem
    have hlt := (Array.getElem?_eq_some_iff.1 hitem).1
    rw [expandMemo]
    cases hknown : memo.partials[item.id]? with
    | some known =>
      obtain ⟨other, hother, hsame⟩ := hmemo.partials hknown
      obtain rfl := Option.some.inj (hother.symm.trans hitem)
      refine ⟨known, false, memo, ?_, hmemo, hclear, .refl memo, hsame path hclear, fun _ => hsame⟩
      simp [hknown]
      rfl
    | none =>
      by_cases hmem : item.id ∈ path
      · refine ⟨[], true, memo, ?_, hmemo, hclear, .refl memo, alternatives_of_mem hmem, by simp⟩
        simp [hknown, hmem]
        rfl
      · by_cases hdot : item.dot = 0
        · have hsame (q : List Nat) (hq : Clear c memo q) :
              alternatives c (some limit) q item = [start item] :=
            alternatives_start hlt (fun hmem => (hq _ hmem).2 item hitem hdot) hdot
          refine ⟨[start item], false, memo, ?_, hmemo, hclear, .refl memo, hsame path hclear,
            fun _ => hsame⟩
          simp [hknown, hmem, hdot]
          rfl
        · have hbelow : Clear c memo (item.id :: path) := by
            intro id hid
            rcases List.mem_cons.1 hid with rfl | hid
            · refine ⟨hknown, fun other hother => ?_⟩
              obtain rfl := Option.some.inj (hother.symm.trans hitem)
              exact hdot
            · exact hclear id hid
          have hshorter := offPath_cons_lt hlt hmem
          have hexpand {k : Nat} {other : Item} (hother : c.items[k]? = some other) :
              Expands c limit (item.id :: path) (fun q => alternatives c (some limit) q other)
                (expandMemo c limit fuel (item.id :: path) other) := ih (by omega) hother
          obtain ⟨found, cut, memo', hrun, h⟩ := followEdges_expands hlinked hexpand
            (fun hother => closeMemo_expands (hlinked.id_eq hother) hother (hexpand hother)) hitem hdot
            memo hmemo hbelow
          -- What was cut holds for this path alone, and is not remembered.
          cases cut with
          | true =>
            refine ⟨found, true, memo', ?_, h.remembers, fun id hid => h.clear id (by simp [hid]), h.grows,
              ?_, by simp⟩
            · simp [hknown, hmem, hdot, run_bind_ok hrun]
              rfl
            · rw [alternatives_eq hlt hmem hdot]
              exact h.found_eq
          | false =>
            refine ⟨found, false, memo'.keepPartials item.id found, ?_,
              h.remember hlinked hitem hdot hmem⟩
            simp [hknown, hmem, hdot, run_bind_ok hrun]
            rfl

end Earley.Forest
