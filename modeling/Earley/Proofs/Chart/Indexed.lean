import Earley.Proofs.Chart.Items

namespace Earley

/-- The place that an index names, if it is one of `size` places. -/
def within (size : Nat) (i : Int) : Option Nat :=
  if 0 ≤ i ∧ i < size then some i.toNat else none

private theorem within_natCast {size i : Nat} (hi : i < size) : within size (i : Int) = some i := by
  simp [within, hi]

/-- The symbol to be found next, with the dot as an index. -/
def Item.nextIndexed (item : Item) : Option (Option Symbol) :=
  if item.isComplete then some none
  else (within item.rule.rhs.length item.dot).map fun d => item.rule.rhs[d]?

private theorem Item.nextIndexed_eq {item : Item} (hdot : 0 ≤ item.dot) :
    item.nextIndexed = some item.next? := by
  obtain ⟨d, hd⟩ := Int.eq_ofNat_of_zero_le hdot
  rw [nextIndexed]
  split
  · next hcomplete => rw [next?, if_pos hcomplete]
  · next hcomplete =>
    have hlt : d < item.rule.rhs.length := by
      rw [isComplete, decide_eq_true_eq, hd] at hcomplete
      omega
    rw [next?_eq hdot, hd, within_natCast hlt, Option.map_some, Int.toNat_natCast]

namespace Chart

def columnIndexed (c : Chart) (pos : Int) : Option (Array Item) :=
  (within c.columns.size pos).bind fun k => c.columns[k]?

def insertIndexed (c : Chart) (pos : Int) (rule : Rule) (dot origin : Int) : Option (Item × Chart) :=
  (within c.columns.size pos).map fun k => c.insert k rule dot origin

def addEdgeIndexed (c : Chart) (id : Int) (edge : Edge) : Option Chart :=
  (within c.edges.size id).map fun k => c.addEdge k edge

def predictIndexed (g : Grammar) (pos : Nat) (symbol : Symbol) (c : Chart) : Option Chart :=
  (g.rulesFor symbol).foldlM (fun d rule => (d.insertIndexed pos rule 0 pos).map Prod.snd) c

def advanceIndexed (pos : Nat) (item : Item) (edge : Edge) (c : Chart) : Option Chart := do
  let (next, d) ← c.insertIndexed pos item.rule (item.dot + 1) item.origin
  d.addEdgeIndexed next.id edge

def scanIndexed (lex : Lexicon) (pos : Nat) (item : Item) (tag : Symbol) (c : Chart) :
    Option Chart := do
  let k ← within c.tokens.length pos
  let word ← c.tokens[k]?
  ((lex.lookup word).filter (·.pos == tag)).foldlM
    (fun d r => d.advanceIndexed (pos + 1) item (wordEdge item word r)) c

def completeIndexed (pos : Nat) (done : Item) (c : Chart) : Option Chart := do
  let column ← c.columnIndexed done.origin
  column.toList.foldlM (fun d waiting => do
    let next ← waiting.nextIndexed
    if next == some done.rule.lhs then d.advanceIndexed pos waiting (childEdge waiting done)
    else some d) c

def processIndexed (g : Grammar) (lex : Lexicon) (pos : Nat) (item : Item) (c : Chart) :
    Option Chart := do
  match ← item.nextIndexed with
  | none => c.completeIndexed pos item
  | some symbol =>
    if symbol.isCategory then c.predictIndexed g pos symbol
    else if pos < c.tokens.length then c.scanIndexed lex pos item symbol
    else some c

def walkIndexed (g : Grammar) (lex : Lexicon) (pos : Nat) : (fuel i : Nat) → Chart → Option Chart
  | 0, _, c => some c
  | fuel + 1, i, c => do
    let column ← c.columnIndexed pos
    match column[i]? with
    | none => some c
    | some item => walkIndexed g lex pos fuel (i + 1) (← c.processIndexed g lex pos item)

/-- The chart of a sentence, unless an index names no place. -/
def buildIndexed (g : Grammar) (lex : Lexicon) (tokens : List String) : Option Chart := do
  let seeded ← (empty tokens).predictIndexed g 0 Symbol.start
  (List.range (tokens.length + 1)).foldlM
    (fun c pos => c.walkIndexed g lex pos (columnBound g pos) 0) seeded

variable {g : Grammar} {lex : Lexicon} {tokens : List String} {c : Chart} {pos : Nat}

private theorem foldlM_eq {α : Type} (inv : Chart → Prop) {step? : Chart → α → Option Chart}
    {step : Chart → α → Chart} {l : List α}
    (h : ∀ a ∈ l, ∀ d, inv d → step? d a = some (step d a) ∧ inv (step d a)) {d : Chart}
    (hd : inv d) : l.foldlM step? d = some (l.foldl step d) := by
  induction l generalizing d with
  | nil => rfl
  | cons a l ih =>
    obtain ⟨hstep, hnext⟩ := h a (by simp) d hd
    rw [List.foldlM_cons, hstep, List.foldl_cons]
    exact ih (fun b hb => h b (by simp [hb])) hnext

private theorem columnIndexed_eq {k : Nat} (hk : k < c.columns.size) :
    c.columnIndexed k = some (c.column k) := by
  rw [columnIndexed, within_natCast hk, Option.bind_some, column, Array.getD_eq_getD_getElem?,
    Array.getElem?_eq_getElem hk, Option.getD_some]

private theorem insertIndexed_eq {k : Nat} (hk : k < c.columns.size) (rule : Rule) (dot origin : Int) :
    c.insertIndexed k rule dot origin = some (c.insert k rule dot origin) := by
  rw [insertIndexed, within_natCast hk, Option.map_some]

private theorem advanceIndexed_eq (hc : c.Coherent) {k : Nat} (hk : k < c.columns.size) (item : Item)
    (edge : Edge) : c.advanceIndexed k item edge = some (c.advance k item edge) := by
  obtain ⟨hnext, _, hmem, _⟩ :=
    insert_spec hc (Nat.zero_le k) hk item.rule (item.dot + 1) item.origin
  rw [advanceIndexed, insertIndexed_eq hk]
  simp only [Option.bind_eq_bind, Option.bind_some, addEdgeIndexed]
  rw [within_natCast (hnext.id_lt_edges hmem)]
  rfl

private theorem predictIndexed_eq (g : Grammar) (hc : c.Coherent) (hpos : pos ≤ c.tokens.length)
    (s : Symbol) :
    c.predictIndexed g pos s = some (c.predict g pos s) := by
  refine foldlM_eq (Grown pos c) (fun rule _ d hd => ?_) ⟨hc, .refl pos c⟩
  rw [insertIndexed_eq (by rw [hd.size]; omega)]
  exact ⟨rfl, hd.insert (Nat.le_refl pos) hpos rule 0 pos⟩

private theorem scanIndexed_eq (hc : c.Coherent) {word : String} (hword : c.tokens[pos]? = some word)
    (item : Item) (tag : Symbol) : c.scanIndexed lex pos item tag =
      some (c.scan (pos + 1) word (lex.lookup word) item tag) := by
  have hlt := (List.getElem?_eq_some_iff.1 hword).1
  rw [scanIndexed, within_natCast hlt, scan_eq]
  simp only [Option.bind_eq_bind, Option.bind_some, hword]
  refine foldlM_eq (Grown pos c) (fun r _ d hd => ?_) ⟨hc, .refl pos c⟩
  rw [advanceIndexed_eq hd.coherent (by rw [hd.size]; omega)]
  exact ⟨rfl, hd.advance (Nat.le_succ pos) hlt item _⟩

private theorem completeIndexed_eq (hc : c.Coherent) (hs : c.Sound g lex c.tokens) {done : Item}
    (hmem : done ∈ c.column pos) (hcomplete : done.next? = none) :
    c.completeIndexed pos done = some (c.complete pos done) := by
  have hvalid := hs pos done hmem
  have hpos := hvalid.le_length
  have horigin := hvalid.origin_lt_of_complete hcomplete
  obtain ⟨k, hk⟩ := Int.eq_ofNat_of_zero_le hvalid.origin_nonneg
  rw [hk, Int.toNat_natCast] at horigin
  rw [completeIndexed, hk, columnIndexed_eq (by rw [hc.columns_size]; omega), Chart.complete, hk,
    Int.toNat_natCast, ← Array.foldl_toList]
  simp only [Option.bind_eq_bind, Option.bind_some]
  refine foldlM_eq (Grown pos c) (fun waiting hwaiting d hd => ?_) ⟨hc, .refl pos c⟩
  have hother := hs k waiting (Array.mem_toList_iff.1 hwaiting)
  rw [Item.nextIndexed_eq hother.dot_nonneg, Option.bind_some]
  split
  · rw [advanceIndexed_eq hd.coherent (by rw [hd.size]; omega)]
    exact ⟨rfl, hd.advance (Nat.le_refl pos) hpos waiting _⟩
  · exact ⟨rfl, hd⟩

private theorem processIndexed_eq (g : Grammar) (hc : c.Coherent) (hs : c.Sound g lex c.tokens) {item : Item}
    (hmem : item ∈ c.column pos) : c.processIndexed g lex pos item =
      some (c.process g (nextWord lex c.tokens pos) pos item) := by
  have hvalid := hs pos item hmem
  rw [processIndexed, Item.nextIndexed_eq hvalid.dot_nonneg, process]
  simp only [Option.bind_eq_bind, Option.bind_some]
  cases hnext : item.next? with
  | none => exact completeIndexed_eq hc hs hmem hnext
  | some s =>
    simp only []
    split
    · exact predictIndexed_eq g hc hvalid.le_length s
    · cases hword : c.tokens[pos]? with
      | none =>
        have hge := List.getElem?_eq_none_iff.1 hword
        rw [if_neg (by omega)]
        simp only [nextWord, hword, Option.map_none]
      | some word =>
        have hlt := (List.getElem?_eq_some_iff.1 hword).1
        simp only [nextWord, hword, Option.map_some, if_pos hlt]
        exact scanIndexed_eq hc hword item s

private theorem walkIndexed_eq {i fuel : Nat} (h : Filling g lex tokens pos i c) :
    c.walkIndexed g lex pos fuel i = some (c.walkColumn g (nextWord lex tokens pos) pos fuel i) := by
  induction fuel generalizing i c with
  | zero => rfl
  | succ fuel ih =>
    have hpos := h.pos_le
    rw [walkIndexed, walkColumn, columnIndexed_eq (by rw [h.size]; omega)]
    simp only [Option.bind_eq_bind, Option.bind_some]
    cases hitem : (c.column pos)[i]? with
    | none => rfl
    | some item =>
      have hsound : c.Sound g lex c.tokens := h.tokens_eq ▸ h.sound
      have hprocess := processIndexed_eq g h.coherent hsound (Array.mem_of_getElem? hitem)
      rw [h.tokens_eq] at hprocess
      simp only [hprocess, Option.bind_some]
      exact ih (h.step hitem)

/-- No index that is used while a chart is filled is out of range. -/
theorem buildIndexed_eq_some (g : Grammar) (lex : Lexicon) (tokens : List String) :
    buildIndexed g lex tokens = some (build g lex tokens) := by
  rw [buildIndexed, predictIndexed_eq g (Coherent.empty tokens) (Nat.zero_le _)]
  refine foldlM_eq_build fun pos c h => ?_
  rw [walkIndexed_eq h, fillColumn, h.tokens_eq]
  rfl

end Chart

end Earley
