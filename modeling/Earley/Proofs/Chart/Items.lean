import Earley.Proofs.Chart.Filling
import Earley.Proofs.Grammar.Derivation
import Mathlib.Algebra.GroupWithZero.Nat
import Mathlib.Algebra.Order.BigOperators.Group.List
import Mathlib.Algebra.Order.Group.Nat
import Mathlib.Data.List.Dedup

namespace Earley

open Grammar

variable {g : Grammar} {lex : Lexicon} {tokens : List String}

/-- What an item of column `j` says: the symbols before its dot cover the tokens from its origin to
the column, and its category may begin at its origin. -/
structure Item.Valid (g : Grammar) (lex : Lexicon) (tokens : List String) (j : Nat) (item : Item) :
    Prop where
  rule : item.rule ∈ g.rules
  dot_nonneg : 0 ≤ item.dot
  dot_le : item.dot.toNat ≤ item.rule.rhs.length
  origin_nonneg : 0 ≤ item.origin
  covers : g.Covers lex tokens ((item.rule.rhs.take item.dot.toNat).map .symbol) item.origin.toNat j
  opens : g.Opens lex tokens item.rule.lhs item.origin.toNat Symbol.start 0

namespace Item

/-- What tells an item from the others of a column. -/
def place (item : Item) : Symbol × List Symbol × Nat × Nat :=
  (item.rule.lhs, item.rule.rhs, item.dot.toNat, item.origin.toNat)

/-- The symbol that an item waits for is the one at its dot. -/
theorem next?_eq {item : Item} (hdot : 0 ≤ item.dot) :
    item.next? = item.rule.rhs[item.dot.toNat]? := by
  obtain ⟨d, hd⟩ := Int.eq_ofNat_of_zero_le hdot
  by_cases hlt : d < item.rule.rhs.length
  · simp [next?, isComplete, symbolAt?, hd, place?_natCast hlt, hlt]
  · have hge : item.rule.rhs.length ≤ d := by omega
    simp [next?, isComplete, hd, hge]

/-- An item is complete exactly if it waits for nothing. -/
theorem isComplete_iff {item : Item} (hdot : 0 ≤ item.dot) :
    item.isComplete = true ↔ item.next? = none := by
  rw [next?_eq hdot, List.getElem?_eq_none_iff, isComplete, decide_eq_true_eq]
  omega

/-- The symbol that an item has found last was to be found next in the items before it. -/
theorem next?_of_isAt {item waiting : Item} {s : Symbol} (hdot : 0 < item.dot)
    (hs : item.rule.rhs[item.dot.toNat - 1]? = some s)
    (hat : waiting.isAt item.rule (item.dot - 1) item.origin = true) : waiting.next? = some s := by
  obtain ⟨hwdot, _, _, hrhs⟩ := isAt_iff.1 hat
  have hd : waiting.dot.toNat = item.dot.toNat - 1 := by omega
  rw [next?_eq (by omega), hrhs, hd, hs]

namespace Valid

variable {j : Nat} {item : Item}

/-- A valid item begins before its column, or there. -/
theorem origin_le (h : item.Valid g lex tokens j) : item.origin.toNat ≤ j :=
  h.covers.le

/-- A valid item stands at a position of the sentence. -/
theorem le_length (h : item.Valid g lex tokens j) : j ≤ tokens.length :=
  h.covers.le_length

/-- A valid item whose dot has moved begins before its column: no part is empty. -/
theorem origin_lt (h : item.Valid g lex tokens j) (hdot : item.dot ≠ 0) : item.origin.toNat < j := by
  have hlen := h.covers.length_le
  have hle := h.dot_le
  have hnonneg := h.dot_nonneg
  rw [List.length_map, List.length_take, Nat.min_eq_left hle] at hlen
  omega

/-- The dot of a complete item is behind the whole right side of its rule. -/
theorem dot_eq_of_complete (h : item.Valid g lex tokens j) (hcomplete : item.next? = none) :
    item.dot.toNat = item.rule.rhs.length := by
  rw [next?_eq h.dot_nonneg, List.getElem?_eq_none_iff] at hcomplete
  have := h.dot_le
  omega

private theorem dot_ne_zero_of_complete (h : item.Valid g lex tokens j) (hcomplete : item.next? = none) :
    item.dot ≠ 0 := by
  have hdot := h.dot_eq_of_complete hcomplete
  have hpos := List.length_pos_iff.2 (rhs_ne_nil_of_mem h.rule)
  omega

/-- A complete item began in an earlier column. -/
theorem origin_lt_of_complete (h : item.Valid g lex tokens j) (hcomplete : item.next? = none) :
    item.origin.toNat < j :=
  h.origin_lt (h.dot_ne_zero_of_complete hcomplete)

private theorem covers_of_complete (h : item.Valid g lex tokens j) (hcomplete : item.next? = none) :
    g.Covers lex tokens (item.rule.rhs.map .symbol) item.origin.toNat j := by
  have hcovers := h.covers
  rwa [h.dot_eq_of_complete hcomplete, List.take_length] at hcovers

/-- The symbol that an item has found last. -/
theorem exists_last (h : item.Valid g lex tokens j) (hdot : item.dot ≠ 0) :
    ∃ s, item.rule.rhs[item.dot.toNat - 1]? = some s ∧ item.symbolAt? (item.dot - 1) = some s ∧
      item.rule.rhs.take item.dot.toNat = item.rule.rhs.take (item.dot.toNat - 1) ++ [s] := by
  have hnonneg := h.dot_nonneg
  have hle := h.dot_le
  have hlt : item.dot.toNat - 1 < item.rule.rhs.length := by omega
  have hcast : item.dot - 1 = ((item.dot.toNat - 1 : Nat) : Int) := by omega
  have hsucc : item.dot.toNat = item.dot.toNat - 1 + 1 := by omega
  refine ⟨_, List.getElem?_eq_getElem hlt, ?_, ?_⟩
  · rw [symbolAt?, hcast, place?_natCast hlt, Option.bind_some, List.getElem?_eq_getElem hlt]
  · have htake := List.take_succ_eq_append_getElem hlt
    rwa [← hsucc] at htake

/-- Moving the dot over a symbol that covers the tokens from one column to another. -/
theorem advance (h : item.Valid g lex tokens j) {s : Symbol} (hnext : item.next? = some s) {k : Nat}
    (hcovers : g.Covers lex tokens [.symbol s] j k) (id : Nat) :
    (Item.mk item.rule (item.dot + 1) item.origin id).Valid g lex tokens k := by
  rw [next?_eq h.dot_nonneg] at hnext
  obtain ⟨hlt, hget⟩ := List.getElem?_eq_some_iff.1 hnext
  have hnonneg := h.dot_nonneg
  have hdot : (item.dot + 1).toNat = item.dot.toNat + 1 := by omega
  refine ⟨h.rule, by simp only []; omega, ?_, h.origin_nonneg, ?_, h.opens⟩
  · simp only [hdot]
    omega
  · simp only [hdot, List.take_add_one, hnext, Option.toList_some, List.map_append]
    exact h.covers.append hcovers

/-- The rules that an item predicts. -/
theorem predict (h : item.Valid g lex tokens j) {rule : Rule} (hrule : rule ∈ g.rules)
    (hnext : item.next? = some rule.lhs) (id : Nat) :
    (Item.mk rule 0 j id).Valid g lex tokens j := by
  rw [next?_eq h.dot_nonneg] at hnext
  obtain ⟨hlt, hget⟩ := List.getElem?_eq_some_iff.1 hnext
  have hsplit : item.rule.rhs =
      item.rule.rhs.take item.dot.toNat ++ rule.lhs :: item.rule.rhs.drop (item.dot.toNat + 1) := by
    rw [← hget, ← List.drop_eq_getElem_cons hlt, List.take_append_drop]
  refine ⟨hrule, Int.le_refl 0, Nat.zero_le _, Int.natCast_nonneg j, ?_, ?_⟩
  · simpa using Covers.nil (g := g) h.le_length
  · simpa using h.opens.trans (.step h.rule hsplit h.covers .refl)

end Valid

end Item

namespace Chart

/-- All items of all columns are valid. -/
def Sound (g : Grammar) (lex : Lexicon) (tokens : List String) (c : Chart) : Prop :=
  ∀ (j : Nat) (item : Item), item ∈ c.column j → item.Valid g lex tokens j

variable {c : Chart} {k : Nat} {rule : Rule} {dot origin : Int}

/-- A chart stays sound when a valid item is inserted. -/
theorem Sound.insert (hs : c.Sound g lex tokens) (hc : c.Coherent) (hk : k < c.columns.size)
    (hvalid : ∀ id, (Item.mk rule dot origin id).Valid g lex tokens k) :
    (c.insert k rule dot origin).2.Sound g lex tokens := by
  rcases insert_cases hc k rule dot origin with ⟨_, _, _, heq⟩ | ⟨_, heq⟩
  · rw [heq]
    exact hs
  · rw [heq]
    intro j item hmem
    rw [column_pushItem c k j _ hk] at hmem
    split at hmem
    · next hj =>
      subst hj
      rcases Array.mem_push.1 hmem with hold | rfl
      · exact hs _ item hold
      · exact hvalid _
    · exact hs j item hmem

/-- Edges do not count for the soundness of a chart. -/
theorem Sound.addEdge (hs : c.Sound g lex tokens) (id : Nat) (edge : Edge) :
    (c.addEdge id edge).Sound g lex tokens := hs

/-- A chart stays sound when an item is moved on, if the moved item is valid. -/
theorem Sound.advance (hs : c.Sound g lex tokens) (hc : c.Coherent) (hk : k < c.columns.size)
    {item : Item}
    (hvalid : ∀ id, (Item.mk item.rule (item.dot + 1) item.origin id).Valid g lex tokens k)
    (edge : Edge) : (c.advance k item edge).Sound g lex tokens := by
  rw [advance_eq]
  exact (hs.insert hc hk hvalid).addEdge _ edge

/-- Charts are sound all through their filling. -/
theorem Filling.sound {pos i : Nat} (h : Filling g lex tokens pos i c) : c.Sound g lex tokens := by
  induction h with
  | seed =>
    have hempty : (empty tokens).Sound g lex tokens := by
      intro j item hmem
      simpa [empty] using (Coherent.empty tokens).items_of_column hmem
    refine (predict_induction (Coherent.empty tokens) (Nat.zero_le _) Symbol.start hempty ?_).2
    intro rule hrule d hd hsound
    obtain ⟨hmem, hlhs⟩ := mem_rulesFor.1 hrule
    refine hsound.insert hd.coherent (by rw [hd.size]; omega) fun id => ?_
    refine ⟨hmem, Int.le_refl 0, Nat.zero_le _, Int.le_refl 0, ?_, ?_⟩
    · simpa using Covers.nil (g := g) (Nat.zero_le _)
    · rw [hlhs]
      exact .refl
  | @step pos i c item h hitem ih =>
    obtain rfl := h.tokens_eq
    have hvalid := ih pos item (Array.mem_of_getElem? hitem)
    have hpos := h.pos_le
    refine (process_induction h.coherent hpos item ih ?_ ?_ ?_).2
    · intro s hnext _ rule hrule d hd hsound
      obtain ⟨hmem, rfl⟩ := mem_rulesFor.1 hrule
      exact hsound.insert hd.coherent (by rw [hd.size]; omega) (hvalid.predict hmem hnext)
    · intro s word hnext htag hword r hr hrs d hd hsound
      have hlt := (List.getElem?_eq_some_iff.1 hword).1
      refine hsound.advance hd.coherent (by rw [hd.size]; omega) (hvalid.advance hnext ?_) _
      exact .of_tag hword ⟨by simp [Symbol.isTag, htag], r, hr, hrs⟩
    · intro hnext waiting hmem hwaiting d hd hsound
      refine hsound.advance hd.coherent (by rw [hd.size]; omega)
        ((ih _ waiting hmem).advance hwaiting ?_) _
      exact .of_rule hvalid.rule (hvalid.covers_of_complete hnext)
  | turn _ _ _ ih => exact ih

/-- The rules without their weights, each once. -/
def forms (g : Grammar) : List (Symbol × List Symbol) :=
  (g.rules.map fun rule => (rule.lhs, rule.rhs)).dedup

private theorem mem_forms {rule : Rule} (h : rule ∈ g.rules) : (rule.lhs, rule.rhs) ∈ forms g :=
  List.mem_dedup.2 (List.mem_map_of_mem h)

/-- The items that may stand in a column, without their numbers and weights. -/
def places (g : Grammar) (pos : Nat) : List (Symbol × List Symbol × Nat × Nat) :=
  (List.range (pos + 1)).flatMap fun origin => (forms g).flatMap fun form =>
    (List.range (form.2.length + 1)).map fun dot => (form.1, form.2, dot, origin)

/-- How many items a column can have at most: for each origin, each form of a rule with each dot. -/
theorem length_places (g : Grammar) (pos : Nat) : (places g pos).length =
    (pos + 1) * ((forms g).map fun form => form.2.length + 1).sum := by
  simp [places, List.length_flatMap]

private theorem length_places_lt (g : Grammar) (pos : Nat) : (places g pos).length < columnBound g pos := by
  have hsub : ((forms g).map fun form => form.2.length + 1).Sublist
      (g.rules.map fun rule => rule.rhs.length + 1) := by
    have hforms : (forms g).Sublist (g.rules.map fun rule => (rule.lhs, rule.rhs)) :=
      List.dedup_sublist _
    simpa [Function.comp_def] using hforms.map fun form => form.2.length + 1
  have hrules : (g.rules.flatMap fun r => r.lhs :: r.rhs).length =
      (g.rules.map fun r => r.rhs.length + 1).sum := by
    simp [List.length_flatMap]
  rw [length_places, columnBound, hrules]
  exact Nat.lt_succ_of_le (Nat.mul_le_mul_left _ (hsub.sum_le_sum fun _ _ => Nat.zero_le _))

/-- No column has more items than there are places. -/
theorem size_column_le (hc : c.Coherent) (hs : c.Sound g lex tokens) (pos : Nat) :
    (c.column pos).size ≤ (places g pos).length := by
  have hvalid {item : Item} (hmem : item ∈ (c.column pos).toList) :
      item.Valid g lex tokens pos := hs pos item (by simpa using hmem)
  have hnodup : ((c.column pos).toList.map Item.place).Nodup := by
    refine (hc.column_nodup pos).map_on fun item hitem item' hitem' heq => ?_
    have h := hvalid hitem
    have h' := hvalid hitem'
    simp only [Item.place, Prod.mk.injEq] at heq
    refine hc.eq_of_isAt (by simpa using hitem) (by simpa using hitem') (Item.isAt_iff.2 ?_)
    have := h.dot_nonneg
    have := h'.dot_nonneg
    have := h.origin_nonneg
    have := h'.origin_nonneg
    exact ⟨by omega, by omega, heq.1, heq.2.1⟩
  have hsubset : (c.column pos).toList.map Item.place ⊆ places g pos := by
    intro place hplace
    obtain ⟨item, hitem, rfl⟩ := List.mem_map.1 hplace
    have h := hvalid hitem
    have := h.origin_le
    have hdot : item.dot.toNat < item.rule.rhs.length + 1 := Nat.lt_succ_of_le h.dot_le
    simp only [places, List.mem_flatMap, List.mem_map, List.mem_range]
    exact ⟨item.origin.toNat, by omega, _, mem_forms h.rule, item.dot.toNat, hdot, rfl⟩
  have hle := hnodup.length_le_of_subset hsubset
  rwa [List.length_map, Array.length_toList] at hle

/-- The bound on a column is never met, so that the filling does not end because of it. -/
theorem size_column_lt (hc : c.Coherent) (hs : c.Sound g lex tokens) (pos : Nat) :
    (c.column pos).size < columnBound g pos :=
  Nat.lt_of_le_of_lt (size_column_le hc hs pos) (length_places_lt g pos)

/-- Walking a column ends behind its last item. -/
theorem walkColumn_filling {pos i fuel : Nat} (h : Filling g lex tokens pos i c)
    (hfuel : columnBound g pos ≤ i + fuel) :
    ∃ stop, Filling g lex tokens pos stop
        (c.walkColumn g (nextWord lex tokens pos) pos fuel i) ∧
      ((c.walkColumn g (nextWord lex tokens pos) pos fuel i).column pos)[stop]? = none := by
  induction fuel generalizing i c with
  | zero =>
    have hlt := size_column_lt h.coherent h.sound pos
    have hend : (c.column pos)[i]? = none := Array.getElem?_eq_none (by omega)
    exact ⟨i, h, hend⟩
  | succ fuel ih =>
    rw [walkColumn]
    cases hitem : (c.column pos)[i]? with
    | none => exact ⟨i, h, hitem⟩
    | some item => exact ih (h.step hitem) (by omega)

/-- The chart with its columns walked up to column `n`. -/
def filled (g : Grammar) (lex : Lexicon) (tokens : List String) (n : Nat) : Chart :=
  (List.range (n + 1)).foldl (fillColumn g lex) ((empty tokens).predict g 0 Symbol.start)

/-- The chart that is filled to one more column is the one before with that column filled. -/
theorem filled_succ (g : Grammar) (lex : Lexicon) (tokens : List String) (n : Nat) :
    filled g lex tokens (n + 1) = fillColumn g lex (filled g lex tokens n) (n + 1) := by
  rw [filled, List.range_succ, List.foldl_append]
  rfl

/-- Every column is filled to its end: behind the place where the filling stops there is no item. -/
theorem filled_filling (g : Grammar) (lex : Lexicon) {tokens : List String} {n : Nat}
    (hn : n ≤ tokens.length) :
    ∃ stop, Filling g lex tokens n stop (filled g lex tokens n) ∧
      ((filled g lex tokens n).column n)[stop]? = none := by
  induction n with
  | zero =>
    have hseed : Filling g lex tokens 0 0 _ := .seed
    have htokens := hseed.tokens_eq
    simp only [filled, Nat.zero_add, List.range_one, List.foldl_cons, List.foldl_nil, fillColumn,
      htokens]
    exact walkColumn_filling hseed (by omega)
  | succ n ih =>
    obtain ⟨stop, hfilling, hend⟩ := ih (by omega)
    have hturn := hfilling.turn hend hn
    have htokens := hturn.tokens_eq
    simp only [filled_succ, fillColumn, htokens]
    exact walkColumn_filling hturn (by omega)

/-- The finished chart is the last state of filling. -/
theorem build_filling (g : Grammar) (lex : Lexicon) (tokens : List String) :
    ∃ stop, Filling g lex tokens tokens.length stop (build g lex tokens) ∧
      ((build g lex tokens).column tokens.length)[stop]? = none :=
  filled_filling g lex (Nat.le_refl _)

/-- Whatever fills each column as it is filled, if it can, fills the whole chart. -/
theorem foldlM_eq_build {fill : Chart → Nat → Option Chart}
    (hfill : ∀ pos c, Filling g lex tokens pos 0 c → fill c pos = some (fillColumn g lex c pos)) :
    (List.range (tokens.length + 1)).foldlM fill ((empty tokens).predict g 0 Symbol.start) =
      some (build g lex tokens) := by
  have hprefix (n : Nat) (hn : n ≤ tokens.length) : (List.range (n + 1)).foldlM fill
      ((empty tokens).predict g 0 Symbol.start) = some (filled g lex tokens n) := by
    induction n with
    | zero => simp [filled, hfill 0 _ .seed]
    | succ n ih =>
      obtain ⟨stop, hfilling, hend⟩ := filled_filling g lex (Nat.le_of_succ_le hn)
      rw [List.range_succ, List.foldlM_append, ih (by omega), filled_succ]
      simp [hfill _ _ (hfilling.turn hend hn)]
  exact hprefix tokens.length (Nat.le_refl _)

/-- The chart of a sentence is coherent. -/
theorem build_coherent (g : Grammar) (lex : Lexicon) (tokens : List String) :
    (build g lex tokens).Coherent :=
  (build_filling g lex tokens).choose_spec.1.coherent

/-- The chart of a sentence is about that sentence. -/
theorem build_tokens (g : Grammar) (lex : Lexicon) (tokens : List String) :
    (build g lex tokens).tokens = tokens :=
  (build_filling g lex tokens).choose_spec.1.tokens_eq

/-- All items of the chart are valid: what they stand for can be derived. -/
theorem build_sound (g : Grammar) (lex : Lexicon) (tokens : List String) :
    (build g lex tokens).Sound g lex tokens :=
  (build_filling g lex tokens).choose_spec.1.sound

/-- All that follows from an item of column `j` is in the chart. -/
structure Settled (g : Grammar) (lex : Lexicon) (tokens : List String) (c : Chart) (j : Nat)
    (item : Item) : Prop where
  predict : ∀ rule ∈ g.rules, item.next? = some rule.lhs → c.Has j rule 0 j
  scan : ∀ s w, item.next? = some s → tokens[j]? = some w → lex.Tags s w →
    c.Has (j + 1) item.rule (item.dot + 1) item.origin
  complete : item.next? = none → ∀ waiting ∈ c.column item.origin.toNat,
    waiting.next? = some item.rule.lhs → c.Has j waiting.rule (waiting.dot + 1) waiting.origin

private theorem foldl_reaches {α : Type} {p q : Chart → Prop} {f : Chart → α → Chart} {l : List α}
    {x : α} (hx : x ∈ l) (hp : ∀ a ∈ l, ∀ d, p d → p (f d a)) (hq : ∀ d, p d → q (f d x))
    (hkeep : ∀ a ∈ l, ∀ d, p d → q d → q (f d a)) {d : Chart} (hd : p d) : q (l.foldl f d) := by
  obtain ⟨before, after, rfl⟩ := List.append_of_mem hx
  rw [List.foldl_append, List.foldl_cons]
  have hbefore : p (before.foldl f d) :=
    List.foldlRecOn _ _ hd fun d hd a ha => hp a (by simp [ha]) d hd
  refine (List.foldlRecOn (motive := fun d => p d ∧ q d) _ _
    ⟨hp x hx _ hbefore, hq _ hbefore⟩ ?_).2
  rintro d ⟨hd, hmet⟩ a ha
  have hmem : a ∈ before ++ x :: after := by simp [ha]
  exact ⟨hp a hmem d hd, hkeep a hmem d hd hmet⟩

private theorem Grown.has_insert {pos k : Nat} {d : Chart} (hd : Grown pos c d) (hpos : pos ≤ k)
    (hk : k ≤ c.tokens.length) (rule : Rule) (dot origin : Int) :
    (d.insert k rule dot origin).2.Has k rule dot origin := by
  obtain ⟨_, _, hmem, hat⟩ := insert_spec hd.coherent hpos (by rw [hd.size]; omega) rule dot origin
  exact ⟨_, hmem, hat⟩

private theorem Grown.has_advance {pos k : Nat} {d : Chart} (hd : Grown pos c d) (hpos : pos ≤ k)
    (hk : k ≤ c.tokens.length) (item : Item) (edge : Edge) :
    (d.advance k item edge).Has k item.rule (item.dot + 1) item.origin :=
  (advance_spec hd.coherent hpos (by rw [hd.size]; omega) item edge).2.2

/-- A further insertion or advance in the same step takes nothing away. -/
private theorem Grown.has_of_has {pos k j : Nat} {d : Chart} (hd : Grown pos c d) (hpos : pos ≤ k)
    (hk : k ≤ c.tokens.length) {rule : Rule} {dot origin : Int} (hhas : d.Has j rule dot origin) :
    (∀ rule' dot' origin', (d.insert k rule' dot' origin').2.Has j rule dot origin) ∧
      ∀ item edge, (d.advance k item edge).Has j rule dot origin := by
  have hsize : k < d.columns.size := by rw [hd.size]; omega
  exact ⟨fun rule' dot' origin' => (insert_spec hd.coherent hpos hsize rule' dot' origin').2.1.has hhas,
    fun item edge => (advance_spec hd.coherent hpos hsize item edge).2.1.has hhas⟩

private theorem process_settled {pos : Nat} (hc : c.Coherent) (hpos : pos ≤ c.tokens.length) {item : Item}
    (hvalid : item.Valid g lex c.tokens pos) :
    Settled g lex c.tokens (c.process g (nextWord lex c.tokens pos) pos item) pos item := by
  have hstart : Grown pos c c := ⟨hc, .refl pos c⟩
  refine ⟨?_, ?_, ?_⟩
  · intro rule hrule hnext
    have hcategory := isCategory_of_mem hrule
    simp only [process, hnext, hcategory, if_true, Chart.predict]
    exact foldl_reaches (p := Grown pos c) (mem_rulesFor.2 ⟨hrule, rfl⟩)
      (fun r _ d hd => hd.insert (Nat.le_refl pos) hpos r 0 pos)
      (fun d hd => hd.has_insert (Nat.le_refl pos) hpos rule 0 pos)
      (fun r _ d hd hhas => (hd.has_of_has (Nat.le_refl pos) hpos hhas).1 r 0 pos) hstart
  · rintro s w hnext hword ⟨htag, r, hr, rfl⟩
    have hlt := (List.getElem?_eq_some_iff.1 hword).1
    have hcategory : Symbol.isCategory r.pos = false := by simpa [Symbol.isTag] using htag
    simp only [process, hnext, nextWord, hword, Option.map_some, scan_eq]
    rw [if_neg (by simpa using hcategory)]
    exact foldl_reaches (p := Grown pos c) (x := r) (by simpa using hr)
      (fun r' _ d hd => hd.advance (Nat.le_succ pos) hlt item _)
      (fun d hd => hd.has_advance (Nat.le_succ pos) hlt item _)
      (fun r' _ d hd hhas => (hd.has_of_has (Nat.le_succ pos) hlt hhas).2 item _) hstart
  · intro hnext waiting hwaiting hlhs
    -- The item began in a column that does not grow any more.
    have horigin := hvalid.origin_lt_of_complete hnext
    rw [(process_grown g lex hc hpos item).growth.before _ horigin] at hwaiting
    simp only [process, hnext, complete_eq]
    exact foldl_reaches (p := Grown pos c) (x := waiting) (by simpa [hlhs] using hwaiting)
      (fun other _ d hd => hd.advance (Nat.le_refl pos) hpos other _)
      (fun d hd => hd.has_advance (Nat.le_refl pos) hpos waiting _)
      (fun other _ d hd hhas => (hd.has_of_has (Nat.le_refl pos) hpos hhas).2 other _) hstart

/-- What has been done for an item stays done when the chart is extended. -/
theorem Settled.extend {pos j : Nat} {d : Chart} {item : Item}
    (h : Settled g lex tokens c j item) (hvalid : item.Valid g lex tokens j) (hj : j ≤ pos)
    (hext : Extends pos c d) : Settled g lex tokens d j item where
  predict rule hrule hnext := hext.has (h.predict rule hrule hnext)
  scan s w hnext hword htag := hext.has (h.scan s w hnext hword htag)
  complete hnext waiting hwaiting hlhs := by
    have horigin := hvalid.origin_lt_of_complete hnext
    rw [hext.before _ (by omega)] at hwaiting
    exact hext.has (h.complete hnext waiting hwaiting hlhs)

private theorem Filling.settled {pos i : Nat} (h : Filling g lex tokens pos i c) :
    ∀ {j q : Nat} {item : Item}, (c.column j)[q]? = some item → j < pos ∨ j = pos ∧ q < i →
      Settled g lex tokens c j item := by
  induction h with
  | seed =>
    rintro j q item _ (hj | ⟨_, hq⟩) <;> omega
  | @step pos i c item h hitem ih =>
    intro j q item' hitem' hwalked
    have hgrown := h.step_grown item
    -- What was walked in the new chart stood in the old one, at the same place.
    have hsame : (c.column j)[q]? = some item' := by
      have hq : q < (c.column j).size := by
        rcases hwalked with hj | ⟨rfl, hq⟩
        · rw [hgrown.growth.before j hj] at hitem'
          exact (Array.getElem?_eq_some_iff.1 hitem').1
        · have := (Array.getElem?_eq_some_iff.1 hitem).1
          omega
      have hget : (c.column j)[q]? = some (c.column j)[q] := Array.getElem?_eq_getElem hq
      rw [hget, ← hgrown.growth.getElem? hget, hitem']
    have hvalid := h.sound j item' (Array.mem_of_getElem? hsame)
    by_cases hlast : j = pos ∧ q = i
    · obtain ⟨rfl, rfl⟩ := hlast
      obtain rfl := Option.some.inj (hitem.symm.trans hsame)
      obtain rfl := h.tokens_eq
      exact process_settled h.coherent h.pos_le hvalid
    · exact (ih hsame (by omega)).extend hvalid (by omega) hgrown.growth
  | @turn pos i c h hend hpos ih =>
    intro j q item hitem hwalked
    have hsize := Array.getElem?_eq_none_iff.1 hend
    have hq := (Array.getElem?_eq_some_iff.1 hitem).1
    refine ih hitem ?_
    by_cases hj : j = pos
    · subst hj
      exact .inr ⟨rfl, by omega⟩
    · exact .inl (by omega)

/-- The rules for the first symbol stand in the first column. -/
theorem Filling.seeded {pos i : Nat} (h : Filling g lex tokens pos i c) {rule : Rule}
    (hrule : rule ∈ g.rules) (hlhs : rule.lhs = Symbol.start) : c.Has 0 rule 0 0 := by
  induction h with
  | seed =>
    have hstart : Grown 0 (empty tokens) (empty tokens) := ⟨.empty tokens, .refl 0 _⟩
    exact foldl_reaches (p := Grown 0 (empty tokens)) (mem_rulesFor.2 ⟨hrule, hlhs⟩)
      (fun r _ d hd => hd.insert (Nat.le_refl 0) (Nat.zero_le _) r 0 0)
      (fun d hd => hd.has_insert (Nat.le_refl 0) (Nat.zero_le _) rule 0 0)
      (fun r _ d hd hhas => (hd.has_of_has (Nat.le_refl 0) (Nat.zero_le _) hhas).1 r 0 0) hstart
  | step h _ ih => exact (h.step_grown _).growth.has ih
  | turn _ _ _ ih => exact ih

/-- In the chart, all that could be done for any item is done. -/
theorem build_settled (g : Grammar) (lex : Lexicon) (tokens : List String) {j : Nat} {item : Item}
    (hmem : item ∈ (build g lex tokens).column j) :
    Settled g lex tokens (build g lex tokens) j item := by
  obtain ⟨stop, hfilling, hend⟩ := build_filling g lex tokens
  obtain ⟨q, hq⟩ := Array.getElem?_of_mem hmem
  have hle := hfilling.coherent.column_lt hmem
  rw [hfilling.tokens_eq] at hle
  have hlt := (Array.getElem?_eq_some_iff.1 hq).1
  have hstop := Array.getElem?_eq_none_iff.1 hend
  refine hfilling.settled hq ?_
  by_cases hj : j = tokens.length
  · subst hj
    exact .inr ⟨rfl, by omega⟩
  · exact .inl (by omega)

end Chart

end Earley
