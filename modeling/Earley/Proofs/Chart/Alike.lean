import Earley.Proofs.Chart.Edges
import Mathlib.Data.List.Forall2

namespace Earley

/-- What the rules of a grammar say, each once, in the order of first mention. -/
def Grammar.expansions (g : Grammar) : List (Symbol × List Symbol) :=
  (g.rules.map fun rule => (rule.lhs, rule.rhs)).eraseDups

/-- Sentences of the same length of which corresponding words have the same parts of speech. -/
def Lexicon.TagAlike (lex lex' : Lexicon) : List String → List String → Prop :=
  List.Forall₂ fun w w' =>
    ∀ tag, tag ∈ (lex.lookup w).map Reading.pos ↔ tag ∈ (lex'.lookup w').map Reading.pos

section

variable {α β γ δ : Type} {R : α → β → Prop}

/-- Lists that match element by element still match when each element is replaced by lists that match. -/
theorem forall₂_flatMap {S : γ → δ → Prop} {l : List α} {l' : List β} (h : List.Forall₂ R l l')
    {f : α → List γ} {f' : β → List δ}
    (hf : ∀ a ∈ l, ∀ b ∈ l', R a b → List.Forall₂ S (f a) (f' b)) :
    List.Forall₂ S (l.flatMap f) (l'.flatMap f') := by
  induction h with
  | nil => exact .nil
  | cons hab _ ih =>
    rw [List.flatMap_cons, List.flatMap_cons]
    exact List.rel_append (hf _ (by simp) _ (by simp) hab)
      (ih fun a ha b hb => hf a (by simp [ha]) b (by simp [hb]))

/-- A function that does not tell matching elements apart has the same values along lists that match. -/
theorem map_eq_map_of_forall₂ {l : List α} {l' : List β} (h : List.Forall₂ R l l') {f : α → γ}
    {f' : β → γ} (hf : ∀ a b, R a b → f a = f' b) : l.map f = l'.map f' := by
  rw [← List.forall₂_eq_eq_eq]
  exact List.rel_map (fun a b => hf a b) h

end

namespace Lexicon.TagAlike

variable {lex lex' : Lexicon} {tokens tokens' : List String}

/-- Where one sentence has a word, the other has a word with the same tags. -/
theorem getElem? (h : lex.TagAlike lex' tokens tokens') {i : Nat} {w : String}
    (hword : tokens[i]? = some w) : ∃ w', tokens'[i]? = some w' ∧
      ∀ tag, tag ∈ (lex.lookup w).map Reading.pos ↔ tag ∈ (lex'.lookup w').map Reading.pos := by
  obtain ⟨hi, rfl⟩ := List.getElem?_eq_some_iff.1 hword
  have hi' : i < tokens'.length := by rwa [← h.length_eq]
  exact ⟨_, List.getElem?_eq_getElem hi', h.get hi hi'⟩

/-- A word of one sentence can be read as a tag if the word of the other can. -/
theorem filter_eq_nil_iff {w w' : String}
    (h : ∀ tag, tag ∈ (lex.lookup w).map Reading.pos ↔ tag ∈ (lex'.lookup w').map Reading.pos)
    (tag : Symbol) :
    (lex.lookup w).filter (·.pos == tag) = [] ↔ (lex'.lookup w').filter (·.pos == tag) = [] := by
  have hnil (lex : Lexicon) (w : String) :
      (lex.lookup w).filter (·.pos == tag) = [] ↔ tag ∉ (lex.lookup w).map Reading.pos := by
    simp [List.filter_eq_nil_iff]
  rw [hnil, hnil, h]

end Lexicon.TagAlike

/-- The same item, weights of rules apart. -/
structure Item.Alike (item item' : Item) : Prop where
  lhs : item.rule.lhs = item'.rule.lhs
  rhs : item.rule.rhs = item'.rule.rhs
  dot : item.dot = item'.dot
  origin : item.origin = item'.origin
  id : item.id = item'.id

namespace Item.Alike

variable {item item' : Item}

theorem symm (h : item.Alike item') : item'.Alike item :=
  ⟨h.lhs.symm, h.rhs.symm, h.dot.symm, h.origin.symm, h.id.symm⟩

/-- Items that are alike are complete together. -/
theorem isComplete_eq (h : item.Alike item') : item.isComplete = item'.isComplete := by
  rw [isComplete, isComplete, h.rhs, h.dot]

/-- Items that are alike wait for the same symbol. -/
theorem next?_eq (h : item.Alike item') : item.next? = item'.next? := by
  rw [next?, next?, h.isComplete_eq, symbolAt?, symbolAt?, h.rhs, h.dot]

private theorem isAt_eq (h : item.Alike item') {rule rule' : Rule} (hlhs : rule.lhs = rule'.lhs)
    (hrhs : rule.rhs = rule'.rhs) (dot origin : Int) :
    item.isAt rule dot origin = item'.isAt rule' dot origin := by
  rw [isAt, isAt, h.lhs, h.rhs, h.dot, h.origin, hlhs, hrhs]

end Item.Alike

namespace Chart

/-- Charts with the same items in the same columns, in the same order. -/
structure Alike (c d : Chart) : Prop where
  size : c.items.size = d.items.size
  columns : ∀ j, List.Forall₂ Item.Alike (c.column j).toList (d.column j).toList

namespace Alike

variable {c d : Chart} {j k : Nat}

theorem symm (h : Alike c d) : Alike d c :=
  ⟨h.size.symm, fun j => List.Forall₂.flip ((h.columns j).imp fun _ _ halike => halike.symm)⟩

/-- Items stand at the same places of columns that are alike. -/
theorem getElem? (h : Alike c d) {i : Nat} {item : Item} (hitem : (c.column j)[i]? = some item) :
    ∃ item', (d.column j)[i]? = some item' ∧ item.Alike item' := by
  rw [← Array.getElem?_toList] at hitem
  obtain ⟨hi, rfl⟩ := List.getElem?_eq_some_iff.1 hitem
  have hi' : i < (d.column j).toList.length := by rwa [← (h.columns j).length_eq]
  refine ⟨(d.column j).toList[i], ?_, (h.columns j).get hi hi'⟩
  rw [← Array.getElem?_toList, List.getElem?_eq_getElem hi']

/-- Columns of charts that are alike end at the same place. -/
theorem getElem?_eq_none (h : Alike c d) {i : Nat} (hend : (c.column j)[i]? = none) :
    (d.column j)[i]? = none := by
  have hlength := (h.columns j).length_eq
  rw [Array.length_toList, Array.length_toList] at hlength
  rw [Array.getElem?_eq_none_iff] at hend ⊢
  omega

/-- Every item of a column has one that is like it in the same column of the other chart. -/
theorem mem (h : Alike c d) {item : Item} (hitem : item ∈ c.column j) :
    ∃ item' ∈ d.column j, item.Alike item' := by
  obtain ⟨i, hi⟩ := Array.getElem?_of_mem hitem
  obtain ⟨item', hi', halike⟩ := h.getElem? hi
  exact ⟨item', Array.mem_of_getElem? hi', halike⟩

/-- Items with one identifier in charts that are alike are alike themselves, in whatever columns they were
looked for. -/
theorem of_id (h : Alike c d) (hd : d.Coherent) {item item' : Item} (hitem : item ∈ c.column j)
    (hitem' : item' ∈ d.column k) (hid : item.id = item'.id) : item.Alike item' := by
  obtain ⟨other, hother, halike⟩ := h.mem hitem
  rwa [hd.eq_of_id hitem' hother (hid.symm.trans halike.id)]

/-- Items that wait for the same, each in its chart, are the same. -/
theorem of_isAt (h : Alike c d) (hd : d.Coherent) {item item' waiting waiting' : Item}
    (hitem : item.Alike item') (hwaiting : waiting ∈ c.column j) (hwaiting' : waiting' ∈ d.column j)
    (hat : waiting.isAt item.rule (item.dot - 1) item.origin = true)
    (hat' : waiting'.isAt item'.rule (item'.dot - 1) item'.origin = true) : waiting.Alike waiting' := by
  obtain ⟨other, hother, halike⟩ := h.mem hwaiting
  rw [halike.isAt_eq hitem.lhs hitem.rhs, hitem.dot, hitem.origin] at hat
  rwa [hd.eq_of_isAt_isAt hwaiting' hother hat' hat]

variable {rule rule' : Rule}

/-- What one chart has, the other has for a rule with the same sides. -/
theorem has (h : Alike c d) (hlhs : rule.lhs = rule'.lhs) (hrhs : rule.rhs = rule'.rhs)
    {dot origin : Int} (hhas : c.Has j rule dot origin) : d.Has j rule' dot origin := by
  obtain ⟨item, hitem, hat⟩ := hhas
  obtain ⟨item', hitem', halike⟩ := h.mem hitem
  exact ⟨item', hitem', halike.isAt_eq hlhs hrhs dot origin ▸ hat⟩

/-- Charts that are alike stay so when rules with the same sides are put at the same place. -/
theorem insert (h : Alike c d) (hc : c.Coherent) (hd : d.Coherent) (hk : k < c.columns.size)
    (hk' : k < d.columns.size) (hlhs : rule.lhs = rule'.lhs) (hrhs : rule.rhs = rule'.rhs)
    (dot origin : Int) :
    Alike (c.insert k rule dot origin).2 (d.insert k rule' dot origin).2 := by
  rcases insert_cases hc k rule dot origin with ⟨item, hitem, hat, heq⟩ | ⟨hnew, heq⟩ <;>
    rcases insert_cases hd k rule' dot origin with ⟨item', hitem', hat', heq'⟩ | ⟨hnew', heq'⟩
  · rw [heq, heq']
    exact h
  · exact absurd (h.has hlhs hrhs ⟨item, hitem, hat⟩) hnew'
  · exact absurd (h.symm.has hlhs.symm hrhs.symm ⟨item', hitem', hat'⟩) hnew
  · rw [heq, heq']
    refine ⟨by simp [h.size], fun j => ?_⟩
    rw [column_pushItem c k j _ hk, column_pushItem d k j _ hk']
    split
    · rw [Array.toList_push, Array.toList_push]
      exact List.rel_append (h.columns j) (.cons ⟨hlhs, hrhs, rfl, rfl, h.size⟩ .nil)
    · exact h.columns j

/-- The edges may differ. -/
theorem addEdge (h : Alike c d) (id id' : Nat) (edge edge' : Edge) :
    Alike (c.addEdge id edge) (d.addEdge id' edge') :=
  ⟨h.size, h.columns⟩

/-- Charts that are alike stay so when items that are alike are moved on, whatever edges they get. -/
theorem advance (h : Alike c d) (hc : c.Coherent) (hd : d.Coherent) (hk : k < c.columns.size)
    (hk' : k < d.columns.size) {item item' : Item} (hitem : item.Alike item') (edge edge' : Edge) :
    Alike (c.advance k item edge) (d.advance k item' edge') := by
  have hinsert := h.insert hc hd hk hk' hitem.lhs hitem.rhs (item.dot + 1) item.origin
  rw [advance_eq, advance_eq, ← hitem.dot, ← hitem.origin]
  exact hinsert.addEdge _ _ edge edge'

end Alike

section

variable {c d : Chart} {pos k : Nat}

private theorem insert_of_has (hc : c.Coherent) {rule : Rule} {dot origin : Int}
    (h : c.Has k rule dot origin) :
    (c.insert k rule dot origin).2 = c := by
  rcases insert_cases hc k rule dot origin with ⟨_, _, _, heq⟩ | ⟨hnew, _⟩
  · rw [heq]
  · exact absurd h hnew

private def sayings (rules : List Rule) : List (Symbol × List Symbol) :=
  rules.map fun rule => (rule.lhs, rule.rhs)

/-- A rule that is there already can be left out of a row of insertions. -/
private theorem foldl_insert_filter (hc : c.Coherent) (hpos : pos < c.columns.size) {rule : Rule}
    (hhas : c.Has pos rule 0 pos) (rules : List Rule) :
    (rules.filter fun r => !((r.lhs, r.rhs) == (rule.lhs, rule.rhs))).foldl
        (fun c r => (c.insert pos r 0 pos).2) c =
      rules.foldl (fun c r => (c.insert pos r 0 pos).2) c := by
  induction rules generalizing c with
  | nil => rfl
  | cons r rest ih =>
    rw [List.foldl_cons]
    by_cases hsame : (r.lhs, r.rhs) = (rule.lhs, rule.rhs)
    · obtain ⟨hlhs, hrhs⟩ := Prod.mk.inj hsame
      obtain ⟨item, hitem, hat⟩ := hhas
      have hrule : c.Has pos r 0 pos := ⟨item, hitem, by
        rw [Item.isAt, hlhs, hrhs]
        exact hat⟩
      rw [List.filter_cons_of_neg (by simp [hsame]), insert_of_has hc hrule]
      exact ih hc hpos ⟨item, hitem, hat⟩
    · obtain ⟨hc', hext, _⟩ := insert_spec hc (Nat.zero_le pos) hpos r 0 pos
      rw [List.filter_cons_of_pos (by simpa using hsame), List.foldl_cons]
      exact ih hc' (by rwa [hext.size]) (hext.has hhas)

/-- Rows of rules that say the same, each counted once, are inserted alike. -/
private theorem foldl_insert_alike (rules rules' : List Rule)
    (hsame : (sayings rules).eraseDups = (sayings rules').eraseDups) {c d : Chart} (h : Alike c d)
    (hc : c.Coherent) (hd : d.Coherent) (hpos : pos < c.columns.size) (hpos' : pos < d.columns.size) :
    Alike (rules.foldl (fun c r => (c.insert pos r 0 pos).2) c)
      (rules'.foldl (fun d r => (d.insert pos r 0 pos).2) d) := by
  match rules, rules' with
  | [], [] => exact h
  | [], r' :: rest' => simp [sayings, List.eraseDups_cons] at hsame
  | r :: rest, [] => simp [sayings, List.eraseDups_cons] at hsame
  | r :: rest, r' :: rest' =>
    simp only [sayings, List.map_cons, List.eraseDups_cons, List.filter_map] at hsame
    obtain ⟨hfirst, hrest⟩ := List.cons.inj hsame
    obtain ⟨hlhs, hrhs⟩ := Prod.mk.inj hfirst
    obtain ⟨hc', hext, hmem, hat⟩ := insert_spec hc (Nat.zero_le pos) hpos r 0 pos
    obtain ⟨hd', hext', hmem', hat'⟩ := insert_spec hd (Nat.zero_le pos) hpos' r' 0 pos
    have hsize : pos < (c.insert pos r 0 pos).2.columns.size := by rwa [hext.size]
    have hsize' : pos < (d.insert pos r' 0 pos).2.columns.size := by rwa [hext'.size]
    rw [List.foldl_cons, List.foldl_cons, ← foldl_insert_filter hc' hsize ⟨_, hmem, hat⟩,
      ← foldl_insert_filter hd' hsize' ⟨_, hmem', hat'⟩]
    exact foldl_insert_alike _ _ hrest (h.insert hc hd hpos hpos' hlhs hrhs 0 pos) hc' hd' hsize
      hsize'
termination_by rules.length
decreasing_by exact Nat.lt_succ_of_le (List.length_filter_le _ _)

private theorem filter_eraseDups {α : Type} [BEq α] [LawfulBEq α] (p : α → Bool) (l : List α) :
    l.eraseDups.filter p = (l.filter p).eraseDups := by
  match l with
  | [] => rfl
  | a :: rest =>
    have hrest := filter_eraseDups p (rest.filter fun b => !b == a)
    rw [List.eraseDups_cons]
    by_cases ha : p a = true
    · rw [List.filter_cons_of_pos ha, List.filter_cons_of_pos ha, List.eraseDups_cons, hrest,
        List.filter_filter, List.filter_filter]
      simp only [Bool.and_comm]
    · rw [List.filter_cons_of_neg ha, List.filter_cons_of_neg ha, hrest, List.filter_filter]
      congr 1
      refine List.filter_congr fun b _ => ?_
      by_cases hb : b = a
      · simp [hb, ha]
      · simp [hb]
termination_by l.length
decreasing_by exact Nat.lt_succ_of_le (List.length_filter_le _ _)

private theorem sayings_rulesFor (g : Grammar) (s : Symbol) :
    (sayings (g.rulesFor s)).eraseDups = g.expansions.filter (·.1 == s) := by
  rw [Grammar.expansions, Grammar.rulesFor_eq, filter_eraseDups, List.filter_map]
  rfl

private theorem predict_alike {g g' : Grammar} (hrules : g.expansions = g'.expansions) (h : Alike c d)
    (hc : c.Coherent) (hd : d.Coherent) (hpos : pos < c.columns.size) (hpos' : pos < d.columns.size)
    (s : Symbol) : Alike (c.predict g pos s) (d.predict g' pos s) :=
  foldl_insert_alike _ _ (by rw [sayings_rulesFor, sayings_rulesFor, hrules]) h hc hd hpos hpos'

end

section

variable {c d : Chart} {pos k : Nat}

/-- A further way to an item that is there adds an edge and nothing else. -/
theorem advance_of_has (hc : c.Coherent) {item : Item}
    (h : c.Has k item.rule (item.dot + 1) item.origin) (edge : Edge) :
    (c.advance k item edge).Coherent ∧ (c.advance k item edge).items = c.items ∧
      (c.advance k item edge).columns = c.columns := by
  rw [advance_eq, insert_of_has hc h]
  exact ⟨hc.addEdge _ _, rfl, rfl⟩

private theorem foldl_advance_of_has (hc : c.Coherent) {α : Type} {item : Item}
    (h : c.Has k item.rule (item.dot + 1) item.origin) (edge : α → Edge) (l : List α) :
    (l.foldl (fun c a => c.advance k item (edge a)) c).items = c.items ∧
      (l.foldl (fun c a => c.advance k item (edge a)) c).columns = c.columns := by
  induction l generalizing c with
  | nil => exact ⟨rfl, rfl⟩
  | cons a rest ih =>
    obtain ⟨hc', hitems, hcolumns⟩ := advance_of_has hc h (edge a)
    have hhas : (c.advance k item (edge a)).Has k item.rule (item.dot + 1) item.origin := by
      rwa [Has, column, hcolumns]
    obtain ⟨hitems', hcolumns'⟩ := ih hc' hhas
    exact ⟨hitems'.trans hitems, hcolumns'.trans hcolumns⟩

/-- Its edges apart, a scan with some reading is one advance. -/
private theorem scan_of_reading (hc : c.Coherent) (hk : k < c.columns.size) (item : Item) (word : String)
    {readings : List Reading} {tag : Symbol} (hne : readings.filter (·.pos == tag) ≠ []) :
    ∃ edge, (c.scan k word readings item tag).items = (c.advance k item edge).items ∧
      (c.scan k word readings item tag).columns = (c.advance k item edge).columns := by
  obtain ⟨r, rest, hreadings⟩ := List.exists_cons_of_ne_nil hne
  obtain ⟨hc', _, hhas⟩ := advance_spec hc (Nat.zero_le k) hk item (wordEdge item word r)
  rw [scan_eq, hreadings, List.foldl_cons]
  exact ⟨wordEdge item word r, foldl_advance_of_has hc' hhas (wordEdge item word) rest⟩

private theorem scan_alike (h : Alike c d) (hc : c.Coherent) (hd : d.Coherent) (hk : k < c.columns.size)
    (hk' : k < d.columns.size) {item item' : Item} (hitem : item.Alike item') (word word' : String)
    {readings readings' : List Reading} {tag : Symbol}
    (hreadings : readings.filter (·.pos == tag) = [] ↔ readings'.filter (·.pos == tag) = []) :
    Alike (c.scan k word readings item tag) (d.scan k word' readings' item' tag) := by
  by_cases hnone : readings.filter (·.pos == tag) = []
  · rw [scan_eq, scan_eq, hnone, hreadings.1 hnone]
    exact h
  · obtain ⟨edge, hitems, hcolumns⟩ := scan_of_reading hc hk item word hnone
    obtain ⟨edge', hitems', hcolumns'⟩ := scan_of_reading hd hk' item' word' (mt hreadings.2 hnone)
    have hmoved := h.advance hc hd hk hk' hitem edge edge'
    refine ⟨by rw [hitems, hitems', hmoved.size], fun j => ?_⟩
    rw [column, column, hcolumns, hcolumns']
    exact hmoved.columns j

private theorem complete_alike (h : Alike c d) (hc : c.Coherent) (hd : d.Coherent)
    (hpos : pos ≤ c.tokens.length) (hpos' : pos ≤ d.tokens.length) {done done' : Item}
    (hdone : done.Alike done') : Alike (c.complete pos done) (d.complete pos done') := by
  have hstart : Grown pos c c ∧ Grown pos d d ∧ Alike c d := ⟨⟨hc, .refl pos c⟩, ⟨hd, .refl pos d⟩, h⟩
  rw [complete_eq, complete_eq, ← hdone.origin, ← hdone.lhs]
  let waits (item : Item) : Bool := item.next? == some done.rule.lhs
  have hsame {item item' : Item} (halike : item.Alike item') : waits item ↔ waits item' := by
    simp only [waits, halike.next?_eq]
  have hwaiting := List.rel_filter (fun _ _ halike => hsame halike) (h.columns done.origin.toNat)
  refine (List.rel_foldl (P := fun c' d' => Grown pos c c' ∧ Grown pos d d' ∧ Alike c' d') ?_ hstart
    hwaiting).2.2
  rintro c' d' ⟨hc', hd', h'⟩ waiting waiting' halike
  refine ⟨hc'.advance (Nat.le_refl pos) hpos waiting _, hd'.advance (Nat.le_refl pos) hpos' waiting' _, ?_⟩
  exact h'.advance hc'.coherent hd'.coherent (by rw [hc'.size]; omega) (by rw [hd'.size]; omega) halike _ _

end

section

variable {g g' : Grammar} {lex lex' : Lexicon} {tokens tokens' : List String} {c d : Chart} {pos i : Nat}

private theorem process_alike (hrules : g.expansions = g'.expansions)
    (htags : lex.TagAlike lex' tokens tokens') (hc : Filling g lex tokens pos i c)
    (hd : Filling g' lex' tokens' pos i d) (h : Alike c d) {item item' : Item}
    (hitem : item.Alike item') :
    Alike (c.process g (nextWord lex tokens pos) pos item)
      (d.process g' (nextWord lex' tokens' pos) pos item') := by
  have hpos := hc.pos_le
  have hpos' := hd.pos_le
  have hsize : pos < c.columns.size := by rw [hc.size]; omega
  have hsize' : pos < d.columns.size := by rw [hd.size]; omega
  rw [process, process, ← hitem.next?_eq]
  cases hnext : item.next? with
  | none =>
    exact complete_alike h hc.coherent hd.coherent (by rwa [hc.tokens_eq]) (by rwa [hd.tokens_eq]) hitem
  | some s =>
    simp only []
    split
    · exact predict_alike hrules h hc.coherent hd.coherent hsize hsize' s
    · cases hword : tokens[pos]? with
      | none =>
        have hword' : tokens'[pos]? = none := by
          rw [List.getElem?_eq_none_iff, ← htags.length_eq]
          exact List.getElem?_eq_none_iff.1 hword
        simpa only [nextWord, hword, hword', Option.map_none] using h
      | some w =>
        obtain ⟨w', hword', hsame⟩ := htags.getElem? hword
        have hlt := (List.getElem?_eq_some_iff.1 hword).1
        have hlt' := (List.getElem?_eq_some_iff.1 hword').1
        simp only [nextWord, hword, hword', Option.map_some]
        exact scan_alike h hc.coherent hd.coherent (by rw [hc.size]; omega) (by rw [hd.size]; omega)
          hitem w w' (Lexicon.TagAlike.filter_eq_nil_iff hsame s)

private theorem walkColumn_of_none {next : Option (String × List Reading)} (h : (c.column pos)[i]? = none)
    (fuel : Nat) : c.walkColumn g next pos fuel i = c := by
  cases fuel with
  | zero => rfl
  | succ fuel => rw [walkColumn, h]

/-- Both walks end behind the same item, however much fuel each has left. -/
theorem walkColumn_alike (hrules : g.expansions = g'.expansions)
    (htags : lex.TagAlike lex' tokens tokens') {fuel fuel' : Nat} (hc : Filling g lex tokens pos i c)
    (hd : Filling g' lex' tokens' pos i d) (h : Alike c d) (hfuel : columnBound g pos ≤ i + fuel)
    (hfuel' : columnBound g' pos ≤ i + fuel') :
    Alike (c.walkColumn g (nextWord lex tokens pos) pos fuel i)
      (d.walkColumn g' (nextWord lex' tokens' pos) pos fuel' i) := by
  induction fuel generalizing fuel' i c d with
  | zero =>
    have hcolumn := size_column_lt hc.coherent hc.sound pos
    have hend : (c.column pos)[i]? = none := Array.getElem?_eq_none (by omega)
    rw [walkColumn_of_none hend, walkColumn_of_none (h.getElem?_eq_none hend)]
    exact h
  | succ fuel ih =>
    cases hitem : (c.column pos)[i]? with
    | none =>
      rw [walkColumn_of_none hitem, walkColumn_of_none (h.getElem?_eq_none hitem)]
      exact h
    | some item =>
      obtain ⟨item', hitem', halike⟩ := h.getElem? hitem
      have hcolumn' := size_column_lt hd.coherent hd.sound pos
      have hlt := (Array.getElem?_eq_some_iff.1 hitem').1
      obtain ⟨fuel', rfl⟩ : ∃ n, fuel' = n + 1 := ⟨fuel' - 1, by omega⟩
      rw [walkColumn, walkColumn, hitem, hitem']
      exact ih (hc.step hitem) (hd.step hitem') (process_alike hrules htags hc hd h halike) (by omega)
        (by omega)

private theorem filled_alike (hrules : g.expansions = g'.expansions)
    (htags : lex.TagAlike lex' tokens tokens') {n : Nat} (hn : n ≤ tokens.length) :
    Alike (filled g lex tokens n) (filled g' lex' tokens' n) := by
  have hlength := htags.length_eq
  induction n with
  | zero =>
    have hseed : Filling g lex tokens 0 0 _ := .seed
    have hseed' : Filling g' lex' tokens' 0 0 _ := .seed
    have hempty : Alike (empty tokens) (empty tokens') := ⟨rfl, fun j => by simp⟩
    have hpredicted : Alike ((empty tokens).predict g 0 Symbol.start)
        ((empty tokens').predict g' 0 Symbol.start) :=
      predict_alike hrules hempty (.empty tokens) (.empty tokens') (by simp [empty]) (by simp [empty]) _
    simp only [filled, Nat.zero_add, List.range_one, List.foldl_cons, List.foldl_nil, fillColumn,
      hseed.tokens_eq, hseed'.tokens_eq]
    exact walkColumn_alike hrules htags hseed hseed' hpredicted (by omega) (by omega)
  | succ n ih =>
    obtain ⟨_, hfilling, hend⟩ := filled_filling g lex (Nat.le_of_succ_le hn)
    obtain ⟨_, hfilling', hend'⟩ := filled_filling g' lex' (show n ≤ tokens'.length by omega)
    have hturn := hfilling.turn hend hn
    have hturn' := hfilling'.turn hend' (by omega)
    simp only [filled_succ, fillColumn, hturn.tokens_eq, hturn'.tokens_eq]
    exact walkColumn_alike hrules htags hturn hturn' (ih (by omega)) (by omega) (by omega)

/-- Grammars that say the same and sentences that are tagged alike have charts with the same items. -/
theorem build_alike (hrules : g.expansions = g'.expansions)
    (htags : lex.TagAlike lex' tokens tokens') : Alike (build g lex tokens) (build g' lex' tokens') := by
  have hfilled := filled_alike hrules htags (Nat.le_refl tokens.length)
  have hlast : build g' lex' tokens' = filled g' lex' tokens' tokens.length := by
    rw [htags.length_eq]
    rfl
  rw [hlast]
  exact hfilled

/-- With the same expansions and tags, both charts have columns that match item by item. -/
theorem build_columns_alike (htags : lex.TagAlike lex' tokens tokens') :
    (build g lex tokens).columns.size = (build g' lex' tokens').columns.size := by
  rw [(build_coherent g lex tokens).columns_size, (build_coherent g' lex' tokens').columns_size,
    build_tokens, build_tokens, htags.length_eq]

private theorem walk_alike (h : Alike c d) (hsize : c.columns.size = d.columns.size) :
    List.Forall₂ (fun p p' : Nat × Item => p.1 = p'.1 ∧ p.2.Alike p'.2) c.walk d.walk := by
  have hrange : List.Forall₂ (· = ·) (List.range d.columns.size) (List.range d.columns.size) :=
    List.forall₂_refl _
  rw [walk, walk, hsize]
  refine forall₂_flatMap hrange fun q _ q' _ hq => ?_
  subst hq
  exact List.rel_map (fun _ _ halike => ⟨rfl, halike⟩) (h.columns q)

/-- An item gives the same edges on both sides to an item that has found a category last. -/
private theorem given_alike (h : Alike c d) {item item' : Item} (hitem : item.Alike item') {s : Symbol}
    (hdot : 0 < item.dot) (hs : item.rule.rhs[item.dot.toNat - 1]? = some s)
    (hcategory : s.isCategory = true) {done done' : Item} (hdone : done.Alike done') (j q : Nat) :
    given lex c j item.rule item.dot item.origin q done =
      given lex' d j item'.rule item'.dot item'.origin q done' := by
  have hat {waiting waiting' : Item} (halike : waiting.Alike waiting') :
      waiting.isAt item.rule (item.dot - 1) item.origin =
        waiting'.isAt item'.rule (item'.dot - 1) item'.origin := by
    rw [halike.isAt_eq hitem.lhs hitem.rhs, hitem.dot, hitem.origin]
  rw [given, given, ← hdone.next?_eq]
  cases hnext : done.next? with
  | none =>
    simp only []
    split
    · rw [← hdone.origin, ← hdone.lhs]
      refine map_eq_map_of_forall₂ (List.rel_filter ?_ (h.columns done.origin.toNat)) ?_
      · intro waiting waiting' halike
        simp only [halike.next?_eq, hat halike]
      · intro waiting waiting' halike
        rw [childEdge, childEdge, halike.id, hdone.id]
    · rfl
  | some t =>
    -- What goes over a word is of no use to the item.
    have hnot (htag : ¬ t.isCategory = true) :
        ¬ done.isAt item.rule (item.dot - 1) item.origin = true := by
      intro hwaits
      rw [Item.next?_of_isAt hdot hs hwaits] at hnext
      exact htag (Option.some.inj hnext ▸ hcategory)
    simp only []
    split
    · rfl
    · next htag =>
      rw [if_neg fun hj => hnot htag hj.2, if_neg fun hj => hnot htag (hat hdone ▸ hj.2)]

/-- Edges of items that are alike match in their order, so that each way to a part in one chart is one in
the other. -/
theorem build_edges_alike (hrules : g.expansions = g'.expansions)
    (htags : lex.TagAlike lex' tokens tokens') {j : Nat} {item item' : Item}
    (hitem : item ∈ (build g lex tokens).column j) (hitem' : item' ∈ (build g' lex' tokens').column j)
    (hsame : item.Alike item') {s : Symbol} (hdot : item.dot ≠ 0)
    (hs : item.rule.rhs[item.dot.toNat - 1]? = some s) (hcategory : s.isCategory = true) :
    (build g lex tokens).edgesOf item.id = (build g' lex' tokens').edgesOf item'.id := by
  have halike := build_alike hrules htags
  have hpositive : 0 < item.dot := by
    have := (build_sound g lex tokens j item hitem).dot_nonneg
    omega
  rw [build_edgesOf g lex tokens hitem, build_edgesOf g' lex' tokens' hitem', ← List.forall₂_eq_eq_eq]
  refine forall₂_flatMap (walk_alike halike (build_columns_alike htags)) fun p _ p' _ hp => ?_
  rw [List.forall₂_eq_eq_eq, ← hp.1]
  exact given_alike halike hsame hpositive hs hcategory hp.2 j p.1

end

end Chart

end Earley
