import Earley.Proofs.Chart.Items

namespace Earley.Chart

/-- Walks a column from its `i`-th item on, with all that `step` adds to it meanwhile. -/
def walkThrough (pos : Nat) (step : Item → Chart → Option Chart) (i : Nat) (c : Chart) : Option Chart :=
  match (c.column pos)[i]? with
  | none => some c
  | some item => do
    let next ← step item c
    next |>.walkThrough pos step (i + 1)
partial_fixpoint

/-- Moves the items that waited for `done`, while they are walked. -/
def completeWalking (pos : Nat) (done : Item) : Chart → Option Chart :=
  walkThrough done.origin.toNat (fun waiting c => some <|
    if waiting.next? == some done.rule.lhs then c.advance pos waiting (childEdge waiting done) else c) 0

/-- What follows from one item of column `pos`. -/
def processWalking (g : Grammar) (lex : Lexicon) (pos : Nat) (item : Item) (c : Chart) :
    Option Chart :=
  match item.next? with
  | none => completeWalking pos item c
  | some symbol =>
    if symbol.isCategory then some (c.predict g pos symbol)
    else match c.tokens[pos]? with
      | some word => some (c.scan (pos + 1) word (lex.lookup word) item symbol)
      | none => some c

/-- The chart of a sentence, if the walks of its columns end. -/
def buildWalking (g : Grammar) (lex : Lexicon) (tokens : List String) : Option Chart :=
  (List.range (tokens.length + 1)).foldlM (fun c pos => walkThrough pos (processWalking g lex pos) 0 c)
    ((empty tokens).predict g 0 Symbol.start)

variable {g : Grammar} {lex : Lexicon} {tokens : List String} {c : Chart} {pos i : Nat}

section

variable {step : Item → Chart → Option Chart}

private theorem walkThrough_of_end (hend : (c.column pos)[i]? = none) :
    walkThrough pos step i c = some c := by
  rw [walkThrough, hend]

private theorem walkThrough_of_step {item : Item} {d : Chart} (hitem : (c.column pos)[i]? = some item)
    (hstep : step item c = some d) : walkThrough pos step i c = walkThrough pos step (i + 1) d := by
  rw [walkThrough, hitem]
  simp [hstep]

/-- The walk of a column to which its own steps add nothing takes the items one after the other. -/
theorem walkThrough_eq_foldl (inv : Chart → Prop) (f : Chart → Item → Chart) {items : Array Item}
    (hcolumn : ∀ d, inv d → d.column pos = items)
    (hstep : ∀ item ∈ items, ∀ d, inv d → step item d = some (f d item) ∧ inv (f d item)) (hc : inv c) :
    walkThrough pos step i c = some ((items.toList.drop i).foldl f c) := by
  generalize hrest : items.toList.drop i = rest
  induction rest generalizing i c with
  | nil =>
    have hend : (c.column pos)[i]? = none := by
      rw [hcolumn c hc, ← Array.getElem?_toList, List.getElem?_eq_none_iff]
      exact List.drop_eq_nil_iff.1 hrest
    rw [walkThrough_of_end hend, List.foldl_nil]
  | cons item rest ih =>
    have hget : items.toList[i]? = some item := by
      rw [← List.head?_drop, hrest, List.head?_cons]
    have hitem : (c.column pos)[i]? = some item := by
      rw [hcolumn c hc, ← Array.getElem?_toList, hget]
    obtain ⟨heq, hinv⟩ := hstep item (Array.mem_toList_iff.1 (List.mem_of_getElem? hget)) c hc
    rw [walkThrough_of_step hitem heq, List.foldl_cons]
    refine ih hinv ?_
    rw [← List.tail_drop, hrest, List.tail_cons]

end

/-- The items that wait for a complete one stand in an earlier column, to which nothing is added. -/
theorem completeWalking_eq (hc : c.Coherent) (hpos : pos ≤ c.tokens.length) {done : Item}
    (horigin : done.origin.toNat < pos) :
    completeWalking pos done c = some (c.complete pos done) := by
  rw [completeWalking, walkThrough_eq_foldl (Grown pos c) (fun d waiting =>
      if waiting.next? == some done.rule.lhs then d.advance pos waiting (childEdge waiting done) else d)
    (fun d hd => hd.growth.before _ horigin) _ ⟨hc, .refl pos c⟩, List.drop_zero, Array.foldl_toList]
  · rfl
  · intro waiting _ d hd
    refine ⟨rfl, ?_⟩
    split
    · exact hd.advance (Nat.le_refl pos) hpos waiting _
    · exact hd

private theorem processWalking_eq (hc : c.Coherent) {item : Item} (hvalid : item.Valid g lex c.tokens pos) :
    processWalking g lex pos item c = some (c.process g (nextWord lex c.tokens pos) pos item) := by
  rw [processWalking, process]
  cases hnext : item.next? with
  | none => exact completeWalking_eq hc hvalid.le_length (hvalid.origin_lt_of_complete hnext)
  | some s =>
    simp only [nextWord]
    split
    · rfl
    · cases c.tokens[pos]? <;> rfl

/-- The walk of a column ends where the bounded one does, for the bound is never met. -/
theorem walkThrough_eq_walkColumn {fuel : Nat} (h : Filling g lex tokens pos i c)
    (hfuel : columnBound g pos ≤ i + fuel) : walkThrough pos (processWalking g lex pos) i c =
      some (c.walkColumn g (nextWord lex tokens pos) pos fuel i) := by
  induction fuel generalizing i c with
  | zero =>
    have hlt := size_column_lt h.coherent h.sound pos
    rw [walkThrough_of_end (Array.getElem?_eq_none (by omega))]
    rfl
  | succ fuel ih =>
    rw [walkColumn]
    cases hitem : (c.column pos)[i]? with
    | none => rw [walkThrough_of_end hitem]
    | some item =>
      have hvalid : item.Valid g lex c.tokens pos :=
        h.tokens_eq ▸ h.sound pos item (Array.mem_of_getElem? hitem)
      have hstep := processWalking_eq h.coherent hvalid
      rw [h.tokens_eq] at hstep
      rw [walkThrough_of_step hitem hstep]
      exact ih (h.step hitem) (by omega)

private theorem buildWalking_eq_some (g : Grammar) (lex : Lexicon) (tokens : List String) :
    buildWalking g lex tokens = some (build g lex tokens) := by
  refine foldlM_eq_build fun pos c h => ?_
  rw [walkThrough_eq_walkColumn h (Nat.le_add_left _ _)]
  rw [fillColumn, h.tokens_eq]
  rfl

/-- The walks of all columns end. In the finished chart column `j` has at most `j + 1` items for each
dot in each distinct rule; each began in no later column, in an earlier one if it has found a symbol,
and its dot stands in its right-hand side. -/
theorem buildWalking_ends (g : Grammar) (lex : Lexicon) (tokens : List String) :
    buildWalking g lex tokens = some (build g lex tokens) ∧ ∀ j : Nat,
      ((build g lex tokens).column j).size ≤
          (j + 1) * ((forms g).map fun form => form.2.length + 1).sum ∧
        ∀ item ∈ (build g lex tokens).column j, 0 ≤ item.origin ∧ item.origin ≤ j ∧
          0 ≤ item.dot ∧ item.dot ≤ item.rule.rhs.length ∧ (0 < item.dot → item.origin < j) := by
  refine ⟨buildWalking_eq_some g lex tokens, fun j => ⟨?_, fun item hmem => ?_⟩⟩
  · rw [← length_places]
    exact size_column_le (build_coherent g lex tokens) (build_sound g lex tokens) j
  · have hvalid := build_sound g lex tokens j item hmem
    have horigin := hvalid.origin_nonneg
    have hle := hvalid.origin_le
    have hdot := hvalid.dot_le
    refine ⟨horigin, by omega, hvalid.dot_nonneg, by omega, fun hpos => ?_⟩
    have hlt := hvalid.origin_lt (by omega)
    omega

end Earley.Chart
