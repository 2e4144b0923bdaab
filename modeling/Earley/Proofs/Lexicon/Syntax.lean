import Earley.Proofs.Groups.Contents
import Earley.Proofs.Lexicon.Text
import Mathlib.Data.List.Basic

namespace Earley

open Earley.Text

namespace Features

private theorem lookup_set (features : Features) (name key : String) (value : FeatureValue) :
    (features.set name value).lookup key = if key = name then some value else features.lookup key := by
  induction features with
  | nil => by_cases hkey : key = name <;> simp [set, List.lookup_cons, hkey, beq_false_of_ne]
  | cons f rest ih =>
    obtain ⟨n, v⟩ := f
    rw [set]
    by_cases hname : n = name
    · subst hname
      by_cases hkey : key = n <;> simp [List.lookup_cons, hkey, beq_false_of_ne]
    · rw [if_neg (by simpa using hname), List.lookup_cons, List.lookup_cons, ih]
      by_cases hkey : key = n
      · simp [hkey, hname]
      · simp [beq_false_of_ne hkey]

/-- One more pair at the end is set last. -/
theorem ofList_append_singleton (pairs : List (String × FeatureValue)) (pair : String × FeatureValue) :
    ofList (pairs ++ [pair]) = (ofList pairs).set pair.1 pair.2 := by
  rw [ofList, List.foldl_append]
  rfl

/-- Names come in the order of their first mention. -/
theorem names_ofList (pairs : List (String × FeatureValue)) :
    (ofList pairs).map Prod.fst = (pairs.map Prod.fst).eraseDups := by
  induction pairs using List.reverseRecOn with
  | nil => rfl
  | append_singleton pairs pair ih =>
    rw [ofList_append_singleton, names_set, ih, List.map_append, List.map_singleton,
      Groups.eraseDups_append_singleton]
    exact if_congr List.mem_eraseDups rfl rfl

/-- The last value of a name is the one that stays. -/
theorem lookup_ofList (pairs : List (String × FeatureValue)) (name : String) :
    (ofList pairs).lookup name = pairs.reverse.lookup name := by
  induction pairs using List.reverseRecOn with
  | nil => rfl
  | append_singleton pairs pair ih =>
    rw [ofList_append_singleton, lookup_set, ih, List.reverse_append, List.reverse_singleton,
      List.singleton_append, List.lookup_cons]
    by_cases hname : name = pair.1
    · simp [hname]
    · simp [hname, beq_false_of_ne hname]

end Features

namespace Lexicon

/-- The parts of a line: a word and a part of speech around a colon, blanks on either side of the
colon, whatever stands behind the part of speech, and the pairs in it. -/
structure LineForm where
  word : List Char
  gap : List Char
  lead : List Char
  pos : List Char
  rest : List Char
  pairs : List (String × String)
deriving DecidableEq

/-- A name and a value as they stand in a line. -/
def pairItem (pair : String × String) : List Char :=
  pair.1.toList ++ '=' :: pair.2.toList

/-- The pair that an item is. -/
def pair? (item : List Char) : Option (String × String) :=
  (splitPair? item).map (Prod.map String.ofList String.ofList)

private theorem pair?_eq_some_iff {item : List Char} {pair : String × String} :
    pair? item = some pair ↔ item = pairItem pair ∧ isWord pair.1.toList = true ∧ pair.2 ≠ "" := by
  rw [pair?, Option.map_eq_some_iff]
  constructor
  · rintro ⟨⟨name, value⟩, hsplit, rfl⟩
    obtain ⟨hname, hne, rfl⟩ := splitPair?_spec hsplit
    refine ⟨by simp [pairItem], by simpa using hname, fun hempty => hne ?_⟩
    simpa using congrArg String.toList hempty
  · rintro ⟨rfl, hname, hvalue⟩
    exact ⟨_, splitPair?_append hname (mt String.toList_eq_nil_iff.1 hvalue), by simp⟩

namespace LineForm

variable {f g : LineForm}

/-- The line that has these parts. -/
def text (f : LineForm) : List Char :=
  f.word ++ f.gap ++ ':' :: (f.lead ++ f.pos ++ f.rest)

/-- The parts are what they are meant to be. The part of speech takes all word characters there are,
and nothing but pairs stands behind it. -/
structure Proper (f : LineForm) : Prop where
  word_ne : f.word ≠ []
  word_solid : Solid f.word
  gap_blank : ∀ c ∈ f.gap, isBlank c = true
  lead_blank : ∀ c ∈ f.lead, isBlank c = true
  pos_word : isWord f.pos = true
  pos_maximal : ∀ c ∈ f.rest.head?, isWordChar c = false
  rest_items : items f.rest = f.pairs.map pairItem
  names : ∀ pair ∈ f.pairs, isWord pair.1.toList = true
  values : ∀ pair ∈ f.pairs, pair.2 ≠ ""

/-- Behind the part of speech a name comes first. -/
theorem Proper.head_trimLeft_rest (h : f.Proper) :
    ∀ c ∈ (trimLeft f.rest).head?, isWordChar c = true := by
  intro c hc
  obtain ⟨more, hmore⟩ := List.head?_eq_some_iff.1 (Option.mem_def.1 hc)
  obtain ⟨item, others, hitems⟩ := items_cons_of_solid (isBlank_of_mem_head?_trimLeft hc) more
  rw [← hmore, items_trimLeft, h.rest_items] at hitems
  obtain ⟨pair, hpair, hitem⟩ := List.mem_map.1 (hitems ▸ List.mem_cons_self : _ ∈ f.pairs.map pairItem)
  have hname := isWord_iff.1 (h.names pair hpair)
  obtain ⟨first, name, hfirst⟩ := List.exists_cons_of_ne_nil hname.1
  rw [pairItem, hfirst] at hitem
  obtain ⟨rfl, -⟩ := List.cons.inj hitem
  exact hname.2 _ (hfirst ▸ List.mem_cons_self)

/-- So a blank ends the part of speech. -/
theorem Proper.head_rest (h : f.Proper) : ∀ c ∈ f.rest.head?, isBlank c = true := by
  intro c hc
  rw [← Bool.not_eq_false]
  intro hsolid
  have htrim : trimLeft f.rest = f.rest := trimLeft_eq_self fun d hd => by
    rwa [← Option.mem_unique hc hd]
  have hword := h.head_trimLeft_rest c (by rwa [htrim])
  rw [h.pos_maximal c hc] at hword
  cases hword

end LineForm

private theorem innerColons_append (tail before front run : List Char) :
    innerColons tail before (front ++ run) =
      innerColons tail (front.reverse ++ before) run ++ innerColons (run ++ tail) before front := by
  induction front generalizing before with
  | nil => simp [innerColons]
  | cons c rest ih =>
    rw [List.cons_append, innerColons, ih, innerColons]
    simp only [List.reverse_cons, List.append_assoc, List.singleton_append]

private theorem innerColons_of_not_mem {run : List Char} (h : ':' ∉ run) (tail before : List Char) :
    innerColons tail before run = [] := by
  induction run generalizing before with
  | nil => rfl
  | cons c rest ih =>
    obtain ⟨hc, hrest⟩ := not_or.1 (List.mem_cons.not.1 h)
    have hne : (c == ':') = false := beq_false_of_ne (Ne.symm hc)
    rw [innerColons, ih hrest, hne]
    rfl

/-- The last colon of a run of characters ends the longest word if no other one follows. -/
theorem wordSplits_tight {word run tail : List Char} (hne : word ≠ []) (hword : Solid word)
    (hrun : Solid run) (hcolon : ':' ∉ run) (htail : ∀ c ∈ tail.head?, isBlank c = true)
    (hnext : (trimLeft tail).head? ≠ some ':') :
    ∃ others, wordSplits (word ++ ':' :: (run ++ tail)) = (word, run ++ tail) :: others := by
  have hsolid : ∀ c ∈ word ++ ':' :: run, (!isBlank c) = true := by
    intro c hc
    rw [hword.append (List.forall_mem_cons.2 ⟨by decide, hrun⟩) c hc]
    rfl
  have hstop : ∀ c ∈ tail.head?, (!isBlank c) = false := fun c hc => by rw [htail c hc]; rfl
  have hline : word ++ ':' :: (run ++ tail) = word ++ ':' :: run ++ tail := by simp
  have hend : innerColons tail (word.reverse ++ []) (':' :: run) = [(word, run ++ tail)] := by
    rw [innerColons, innerColons_of_not_mem hcolon]
    simp [hne]
  refine ⟨innerColons (':' :: run ++ tail) [] word, ?_⟩
  rw [hline, wordSplits, takeWhile_append_stop hsolid hstop, dropWhile_append_stop hsolid hstop,
    innerColons_append, hend]
  split
  · next heq => exact absurd (by rw [heq]; rfl) hnext
  · rfl

namespace LineForm

variable {f g : LineForm}

/-- Among all the words that a line of this form could begin with, its own is the longest. -/
theorem Proper.wordSplits_text (h : f.Proper) :
    ∃ others, wordSplits f.text = (f.word, f.lead ++ f.pos ++ f.rest) :: others := by
  by_cases hgap : f.gap = []
  · rw [text, hgap, List.append_nil]
    by_cases hlead : f.lead = []
    · -- The part of speech continues the run in which the colon stands.
      rw [hlead, List.nil_append]
      refine wordSplits_tight h.word_ne h.word_solid (Solid.of_isWord h.pos_word)
        (not_mem_of_isWord h.pos_word (by decide)) h.head_rest fun hcolon => ?_
      exact absurd (h.head_trimLeft_rest _ hcolon) (by decide)
    · have hblank : ∀ c ∈ (f.lead ++ f.pos ++ f.rest).head?, isBlank c = true := by
        obtain ⟨first, more, hfirst⟩ := List.exists_cons_of_ne_nil hlead
        rw [hfirst]
        rintro _ ⟨⟩
        exact h.lead_blank _ (hfirst ▸ List.mem_cons_self)
      have hnext : (trimLeft (f.lead ++ f.pos ++ f.rest)).head? ≠ some ':' := by
        obtain ⟨first, more, hfirst⟩ := List.exists_cons_of_ne_nil (isWord.ne_nil h.pos_word)
        rw [trimLeft_lead h.lead_blank h.pos_word, hfirst]
        rintro ⟨⟩
        exact not_mem_of_isWord h.pos_word (by decide) (hfirst ▸ List.mem_cons_self)
      exact @wordSplits_tight f.word [] _ h.word_ne h.word_solid (List.forall_mem_nil _) List.not_mem_nil
        hblank hnext
  · exact wordSplits_spaced h.word_ne h.word_solid h.gap_blank hgap _

private theorem Proper.splitLine?_text (h : f.Proper) (hline : '\n' ∉ f.text) :
    splitLine? f.text = some (f.word, f.pos, f.rest) := by
  obtain ⟨others, hsplits⟩ := h.wordSplits_text
  have hrest : '\n' ∉ f.rest := fun hmem => hline (by simp [text, hmem])
  exact splitLine?_of_wordSplits hsplits h.lead_blank h.pos_word h.pos_maximal hrest

/-- Its pairs can be read off the items behind the part of speech. -/
theorem Proper.filterMap_pair? (h : f.Proper) : (items f.rest).filterMap pair? = f.pairs := by
  have hread : ∀ pair ∈ f.pairs, (pair? ∘ pairItem) pair = some (id pair) :=
    fun pair hpair => pair?_eq_some_iff.2 ⟨rfl, h.names pair hpair, h.values pair hpair⟩
  rw [h.rest_items, List.filterMap_map, List.filterMap_eq_map_iff_forall_eq_some.2 hread, List.map_id]

/-- A line has this form in one way only. -/
theorem Proper.eq_of_text_eq (h : f.Proper) (hg : g.Proper) (htext : f.text = g.text)
    (hline : '\n' ∉ f.text) : f = g := by
  have hsplit := h.splitLine?_text hline
  rw [htext, hg.splitLine?_text (htext ▸ hline)] at hsplit
  have hpairs := h.filterMap_pair?.symm
  have hpairs' := hg.filterMap_pair?.symm
  obtain ⟨word, gap, lead, pos, rest, pairs⟩ := f
  obtain ⟨word', gap', lead', pos', rest', pairs'⟩ := g
  cases hsplit
  cases hpairs.trans hpairs'.symm
  have hstop {after : List Char} : ∀ c ∈ (':' :: after).head?, isBlank c = false := by
    rintro _ ⟨⟩
    decide
  have hbehind : gap ++ ':' :: (lead ++ pos ++ rest) = gap' ++ ':' :: (lead' ++ pos ++ rest) := by
    rw [text, text, List.append_assoc, List.append_assoc _ gap'] at htext
    exact List.append_cancel_left htext
  have hgap := congrArg (List.takeWhile isBlank) hbehind
  rw [takeWhile_append_stop h.gap_blank hstop, takeWhile_append_stop hg.gap_blank hstop] at hgap
  cases hgap
  have hlead := (List.cons.inj (List.append_cancel_left hbehind)).2
  rw [List.append_assoc, List.append_assoc] at hlead
  cases List.append_cancel_right hlead
  rfl

end LineForm

/-- The value that a line gives to a name: persons in decimal digits are numbers, anything else is a
text. -/
def givenValue (name value : String) : FeatureValue :=
  if name = "person" ∧ value.toList.all isDecimal = true then .number (Decimal.ofDigits value.toList)
  else .text value

/-- A line of this form describes this reading: the last `lemma` is the base form, and every other name
has its last value, in order of first mention. -/
structure LineForm.Describes (f : LineForm) (r : Reading) : Prop where
  word : r.word.toList = f.word
  pos : r.pos.toList = f.pos
  baseForm : r.baseForm = (f.pairs.reverse.lookup "lemma").getD (lower r.word)
  names : r.features.map Prod.fst = ((f.pairs.map Prod.fst).filter (· ≠ "lemma")).eraseDups
  values : ∀ name, name ≠ "lemma" →
    r.features.lookup name = (f.pairs.reverse.lookup name).map (givenValue name)

/-- Every person that consists of digits can be read as a number. -/
def PersonsReadable (line : List Char) : Prop :=
  ∀ value : String, "person=".toList ++ value.toList ∈ items line → value ≠ "" →
    value.toList.all isDigit = true → ∃ n, Decimal.readInt value = .ok n

/-- Where the digits of a person are a number, a value is read as the number or the text that it is given
as. -/
theorem readValue_eq_givenValue {name value : String} (hne : value ≠ "") (hsolid : Solid value.toList)
    (hread : name = "person" → value.toList.all isDigit = true → ∃ n, Decimal.readInt value = .ok n) :
    readValue name value = .ok (givenValue name value) := by
  by_cases hperson : name = "person" ∧ value.toList.all isDigit = true
  · obtain ⟨n, hn⟩ := hread hperson.1 hperson.2
    obtain ⟨hdecimal, rfl, -⟩ := Decimal.readInt_eq_ok_of_isDigit hsolid hperson.2 hne hn
    rw [readValue, if_pos (by simp [numericNames, hperson, hne]), hn, givenValue,
      if_pos ⟨hperson.1, hdecimal⟩]
    rfl
  · have hdecimal : ¬(name = "person" ∧ value.toList.all isDecimal = true) := by
      refine fun h => hperson ⟨h.1, List.all_eq_true.2 fun c hc => ?_⟩
      rw [isDigit, List.all_eq_true.1 h.2 c hc]
      rfl
    rw [readValue, givenValue, if_neg hdecimal, if_neg]
    simp only [numericNames, Bool.and_eq_true_iff, List.contains_iff_mem, List.mem_singleton]
    exact fun h => hperson ⟨h.1.1, h.2⟩

/-- The pairs that set a feature, with the values that a line gives them. -/
def featurePairs (pairs : List (String × String)) : List (String × FeatureValue) :=
  (pairs.filter (·.1 ≠ "lemma")).map fun pair => (pair.1, givenValue pair.1 pair.2)

private theorem map_fst_featurePairs (pairs : List (String × String)) :
    (featurePairs pairs).map Prod.fst = (pairs.map Prod.fst).filter (· ≠ "lemma") := by
  rw [featurePairs, List.map_map, List.filter_map]
  rfl

private theorem lookup_reverse_featurePairs (pairs : List (String × String)) {name : String}
    (hname : name ≠ "lemma") :
    (featurePairs pairs).reverse.lookup name = (pairs.reverse.lookup name).map (givenValue name) := by
  rw [featurePairs, ← List.map_reverse, ← List.filter_reverse]
  generalize pairs.reverse = reversed
  induction reversed with
  | nil => rfl
  | cons pair rest ih =>
    by_cases hlemma : pair.1 = "lemma"
    · have hne : (name == pair.1) = false := beq_false_of_ne (hlemma ▸ hname)
      rw [List.filter_cons_of_neg (by simp [hlemma]), ih, List.lookup_cons, hne]
    · rw [List.filter_cons_of_pos (by simp [hlemma]), List.map_cons, List.lookup_cons, List.lookup_cons, ih]
      by_cases heq : name = pair.1
      · simp [heq]
      · simp [beq_false_of_ne heq]

/-- Pairs are read one after the other. -/
theorem readItems_pairs {pairs : List (String × String)}
    (h : ∀ pair ∈ pairs, isWord pair.1.toList = true ∧ pair.2 ≠ "" ∧
      readValue pair.1 pair.2 = .ok (givenValue pair.1 pair.2))
    (before : Features) (baseForm? : Option String) :
    readItems before baseForm? (pairs.map pairItem) =
      .ok ((featurePairs pairs).foldl (fun features pair => features.set pair.1 pair.2) before,
        (pairs.reverse.lookup "lemma").or baseForm?) := by
  induction pairs generalizing before baseForm? with
  | nil => rfl
  | cons pair rest ih =>
    obtain ⟨name, value⟩ := pair
    obtain ⟨⟨hname, hvalue, hread⟩, hrest⟩ := List.forall_mem_cons.1 h
    have hsplit := splitPair?_append hname (mt String.toList_eq_nil_iff.1 hvalue)
    rw [List.map_cons, readItems, pairItem, hsplit, List.reverse_cons, List.lookup_append]
    dsimp only
    rw [String.ofList_toList, String.ofList_toList]
    by_cases hlemma : name = "lemma"
    · rw [hlemma, if_pos (by decide), ih hrest]
      simp [featurePairs]
    · rw [if_neg (by simpa using hlemma), hread]
      dsimp only
      rw [ih hrest]
      simp [featurePairs, List.lookup_cons, hlemma, beq_false_of_ne (Ne.symm hlemma)]

/-- A line that could be read has pairs and nothing else behind its part of speech. -/
theorem exists_pairs_of_readItems {parts : List (List Char)} {before features : Features}
    {baseForm? found? : Option String} (h : readItems before baseForm? parts = .ok (features, found?)) :
    ∃ pairs : List (String × String), parts = pairs.map pairItem ∧
      ∀ pair ∈ pairs, isWord pair.1.toList = true ∧ pair.2 ≠ "" := by
  induction parts generalizing before baseForm? with
  | nil => exact ⟨[], rfl, List.forall_mem_nil _⟩
  | cons part rest ih =>
    rw [readItems] at h
    split at h
    · cases h
    · next name value hsplit =>
      have hpair : pair? part = some (String.ofList name, String.ofList value) := by
        rw [pair?, hsplit]
        rfl
      obtain ⟨rfl, hword, hne⟩ := pair?_eq_some_iff.1 hpair
      have hrest : ∃ before baseForm?, readItems before baseForm? rest = .ok (features, found?) := by
        dsimp only at h
        split at h
        · exact ⟨_, _, h⟩
        · split at h
          · cases h
          · exact ⟨_, _, h⟩
      obtain ⟨before, baseForm?, hrest⟩ := hrest
      obtain ⟨pairs, rfl, hpairs⟩ := ih hrest
      exact ⟨_ :: pairs, rfl, List.forall_mem_cons.2 ⟨⟨hword, hne⟩, hpairs⟩⟩

/-- The lexicon with one more reading, the last one of its word; all else is as it was. -/
structure Gains (lex : Lexicon) (r : Reading) (lex' : Lexicon) : Prop where
  lookup : ∀ word, lex'.lookup word =
    if lower word = lower r.word then lex.lookup word ++ [r] else lex.lookup word
  keys : lex'.keys = if lower r.word ∈ lex.keys then lex.keys else lex.keys ++ [lower r.word]
  readings : lex'.readings.Perm (lex.readings ++ [r])

private theorem lookup_cons (h : Headword) (rest : List Headword) (word : String) :
    lookup ⟨h :: rest⟩ word = if h.key = lower word then h.readings else lookup ⟨rest⟩ word := by
  by_cases hkey : h.key = lower word
  · simp [lookup, hkey]
  · simp [lookup, hkey]

private theorem lookup_insert (r : Reading) (hs : List Headword) (word : String) :
    lookup ⟨insert r (lower r.word) hs⟩ word =
      if lower word = lower r.word then lookup ⟨hs⟩ word ++ [r] else lookup ⟨hs⟩ word := by
  induction hs with
  | nil =>
    by_cases hword : lower word = lower r.word
    · simp [lookup, insert, hword]
    · simp [lookup, insert, hword, Ne.symm hword]
  | cons h rest ih =>
    rw [insert]
    by_cases hkey : h.key = lower r.word
    · rw [if_pos (beq_iff_eq.2 hkey), lookup_cons, lookup_cons, hkey]
      by_cases hword : lower word = lower r.word
      · simp [hword]
      · simp [hword, Ne.symm hword]
    · rw [if_neg (mt beq_iff_eq.1 hkey), lookup_cons, lookup_cons, ih]
      by_cases hword : h.key = lower word
      · simp [hword, hword ▸ hkey]
      · simp [hword]

private theorem gains_insert (lex : Lexicon) (r : Reading) :
    lex.Gains r ⟨insert r (lower r.word) lex.headwords⟩ where
  lookup := lookup_insert r lex.headwords
  keys := keys_insert r (lower r.word) lex.headwords
  readings := readings_insert r (lower r.word) lex.headwords

/-- An addition is the same gain for every lexicon. -/
theorem exists_gains_add (word pos : String) (features : Features) (baseForm? : Option String) :
    ∃ r, ∀ lex : Lexicon, lex.Gains r (lex.add word pos features baseForm?) := by
  obtain ⟨baseForm, -, hadd⟩ := exists_add word pos features baseForm?
  refine ⟨⟨word, pos, baseForm, features⟩, fun lex => ?_⟩
  rw [hadd]
  exact gains_insert lex _

/-- A lexicon that gains a reading has one more. -/
theorem Gains.size_eq {lex lex' : Lexicon} {r : Reading} (h : lex.Gains r lex') :
    lex'.size = lex.size + 1 := by
  rw [size, h.readings.length_eq, List.length_append]
  rfl

namespace LineForm

variable {f g : LineForm}

/-- Items behind the part of speech are items of the line. -/
theorem Proper.mem_items_text (h : f.Proper) {item : List Char} (hitem : item ∈ items f.rest) :
    item ∈ items f.text := by
  cases hrest : f.rest with
  | nil =>
    rw [hrest] at hitem
    cases hitem
  | cons c more =>
    have hblank := h.head_rest c (by rw [hrest]; rfl)
    have htext : f.text = f.word ++ f.gap ++ ':' :: (f.lead ++ f.pos) ++ c :: more := by
      rw [text, hrest]
      simp
    rw [hrest, items_cons hblank] at hitem
    rw [htext, items_append_cons _ _ hblank]
    exact List.mem_append_right _ hitem

private theorem Proper.readItems_rest (h : f.Proper) (hpersons : PersonsReadable f.text) :
    readItems [] none (items f.rest) =
      .ok (Features.ofList (featurePairs f.pairs), f.pairs.reverse.lookup "lemma") := by
  have hread : ∀ pair ∈ f.pairs, isWord pair.1.toList = true ∧ pair.2 ≠ "" ∧
      readValue pair.1 pair.2 = .ok (givenValue pair.1 pair.2) := by
    intro pair hpair
    have hitem : pairItem pair ∈ items f.rest := h.rest_items ▸ List.mem_map_of_mem hpair
    have hsolid : Solid pair.2.toList := fun c hc =>
      (mem_items hitem).2.1 c (List.mem_append_right _ (List.mem_cons_of_mem _ hc))
    have hvalue := h.values pair hpair
    refine ⟨h.names pair hpair, hvalue, readValue_eq_givenValue hvalue hsolid fun hname hdigits => ?_⟩
    have hperson := h.mem_items_text hitem
    rw [pairItem, hname] at hperson
    exact hpersons pair.2 hperson hvalue hdigits
  rw [h.rest_items, readItems_pairs hread, Option.or_none]
  rfl

/-- A line of this form adds the reading that it describes. -/
theorem Proper.readLine_text (h : f.Proper) (hline : '\n' ∉ f.text) (hpersons : PersonsReadable f.text)
    (lex : Lexicon) :
    ∃ r, f.Describes r ∧ readLine lex f.text = (⟨insert r (lower r.word) lex.headwords⟩, none) := by
  have hbase : f.pairs.reverse.lookup "lemma" ≠ some "" := by
    intro hempty
    obtain ⟨before, behind, hpairs, -⟩ := List.lookup_eq_some_iff.1 hempty
    have hmem : ("lemma", "") ∈ f.pairs := List.mem_reverse.1 (by rw [hpairs]; simp)
    exact h.values _ hmem rfl
  refine ⟨⟨String.ofList f.word, String.ofList f.pos,
    (f.pairs.reverse.lookup "lemma").getD (lower (String.ofList f.word)),
    Features.ofList (featurePairs f.pairs)⟩, ?_, ?_⟩
  · exact {
      word := String.toList_ofList
      pos := String.toList_ofList
      baseForm := rfl
      names := by rw [Features.names_ofList, map_fst_featurePairs]
      values := fun name hname => by
        rw [Features.lookup_ofList, lookup_reverse_featurePairs f.pairs hname] }
  · rw [readLine, h.splitLine?_text hline]
    dsimp only
    rw [h.readItems_rest hpersons]
    dsimp only
    rw [add_eq lex _ _ _ hbase]

end LineForm

/-- Only lines of that form can be read. -/
theorem exists_proper_of_readLine {lex : Lexicon} {line : List Char} (h : (readLine lex line).2 = none) :
    ∃ f : LineForm, f.Proper ∧ f.text = line := by
  rw [readLine] at h
  split at h
  · cases h
  · next word pos rest hsplit =>
    obtain ⟨hne, hsolid, hpos, hmaximal, gap, lead, hgap, hlead, hline⟩ := splitLine?_spec hsplit
    split at h
    · cases h
    · next hread =>
      obtain ⟨pairs, hitems, hpairs⟩ := exists_pairs_of_readItems hread
      refine ⟨⟨word, gap, lead, pos, rest, pairs⟩, ?_, hline.symm⟩
      exact ⟨hne, hsolid, hgap, hlead, hpos, hmaximal, hitems, fun pair hpair => (hpairs pair hpair).1,
        fun pair hpair => (hpairs pair hpair).2⟩

/-- A line with a fault leaves no trace. -/
theorem readLine_of_fault {lex : Lexicon} {line : List Char} (h : (readLine lex line).2 ≠ none) :
    (readLine lex line).1 = lex := by
  rw [readLine] at h ⊢
  split
  · rfl
  · next hsplit =>
    rw [hsplit] at h
    dsimp only at h
    split
    · rfl
    · next hread =>
      rw [hread] at h
      exact absurd rfl h

/-- A line can be read just if it has the form of a reading, which it has in one way only; then the
lexicon gains the reading that it describes, and else nothing. -/
theorem readLine_proper (lex : Lexicon) {line : List Char} (hline : '\n' ∉ line)
    (hpersons : PersonsReadable line) :
    ((readLine lex line).2 = none ↔ ∃ f : LineForm, f.Proper ∧ f.text = line) ∧
      (∀ f g : LineForm, f.Proper → g.Proper → f.text = line → g.text = line → f = g) ∧
      (∀ f : LineForm, f.Proper → f.text = line →
        ∃ r, f.Describes r ∧ lex.Gains r (readLine lex line).1) ∧
      ((readLine lex line).2 ≠ none → (readLine lex line).1 = lex) := by
  refine ⟨⟨exists_proper_of_readLine, ?_⟩, ?_, ?_, readLine_of_fault⟩
  · rintro ⟨f, hf, rfl⟩
    obtain ⟨r, -, hread⟩ := hf.readLine_text hline hpersons lex
    rw [hread]
  · rintro f g hf hg rfl htext
    exact hf.eq_of_text_eq hg htext.symm hline
  · rintro f hf rfl
    obtain ⟨r, hr, hread⟩ := hf.readLine_text hline hpersons lex
    rw [hread]
    exact ⟨r, hr, gains_insert lex r⟩

/-- A line that three words could begin, with a number, a base form, and a name that comes twice. -/
def winding : LineForm where
  word := "X:Y:".toList
  gap := []
  lead := [' ']
  pos := ['N']
  rest := " person=07 e=a=b lemma=y e=:c".toList
  pairs := [("person", "07"), ("e", "a=b"), ("lemma", "y"), ("e", ":c")]

private theorem winding_proper : winding.Proper where
  word_ne := by decide
  word_solid := by decide +kernel
  gap_blank := List.forall_mem_nil _
  lead_blank := List.forall_mem_singleton.2 (by decide)
  pos_word := by decide +kernel
  pos_maximal := by
    rintro _ ⟨⟩
    decide
  rest_items := by decide +kernel
  names := by decide +kernel
  values := by decide

private theorem winding_persons : PersonsReadable winding.text := by
  intro value hitem _ _
  have hseven : ∀ item ∈ items winding.text,
      item.take 7 = "person=".toList → item.drop 7 = "07".toList := by decide +kernel
  have hvalue : value.toList = "07".toList := hseven _ hitem (List.take_left' rfl)
  exact ⟨7, by rw [String.toList_injective hvalue]; decide +kernel⟩

/-- A word that ends in a colon, values with signs of equality and colons, a name that comes twice, and a
lemma. -/
theorem readLine_proper_winding :
    '\n' ∉ winding.text ∧ PersonsReadable winding.text ∧
      (readLine (empty.add "x:y:" "V") winding.text).2 = none ∧
      (∀ f : LineForm, f.Proper → f.text = winding.text → f = winding) ∧
      ∃ r, winding.Describes r ∧
        (empty.add "x:y:" "V").Gains r (readLine (empty.add "x:y:" "V") winding.text).1 := by
  have hline : '\n' ∉ winding.text := by decide +kernel
  obtain ⟨hread, hunique, hgains, -⟩ :=
    readLine_proper (empty.add "x:y:" "V") hline winding_persons
  exact ⟨hline, winding_persons, hread.2 ⟨winding, winding_proper, rfl⟩,
    fun f hf htext => hunique f winding hf winding_proper htext rfl, hgains winding winding_proper rfl⟩

end Lexicon

end Earley
