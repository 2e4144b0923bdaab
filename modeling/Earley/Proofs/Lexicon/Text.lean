import Earley.Proofs.Lexicon.Plain

namespace Earley

open Earley.Text

/-- Features that can stand in a line, each name once; what their values are read as is left open. -/
structure Features.Legible (features : Features) : Prop where
  names : (features.map Prod.fst).Nodup
  values : ∀ f ∈ features, isWord f.1.toList = true ∧ f.1 ≠ "lemma" ∧
    Lexicon.valueText f.2 ≠ "" ∧ Solid (Lexicon.valueText f.2).toList

instance (features : Features) : Decidable features.Legible :=
  decidable_of_iff ((features.map Prod.fst).Nodup ∧
      ∀ f ∈ features, isWord f.1.toList = true ∧ f.1 ≠ "lemma" ∧
        Lexicon.valueText f.2 ≠ "" ∧ Solid (Lexicon.valueText f.2).toList)
    ⟨fun ⟨hnames, hvalues⟩ => ⟨hnames, hvalues⟩, fun h => ⟨h.names, h.values⟩⟩

/-- A reading that can be written as a line. -/
structure Reading.Legible (r : Reading) : Prop where
  word_ne : r.word ≠ ""
  word_solid : Solid r.word.toList
  word_head : r.word.toList.head? ≠ some '#'
  pos : isWord r.pos.toList = true
  baseForm : Solid r.baseForm.toList
  features : r.features.Legible

instance (r : Reading) : Decidable r.Legible :=
  decidable_of_iff (r.word ≠ "" ∧ Solid r.word.toList ∧ r.word.toList.head? ≠ some '#' ∧
      isWord r.pos.toList = true ∧ Solid r.baseForm.toList ∧ r.features.Legible)
    ⟨fun ⟨hne, hsolid, hhead, hpos, hbase, hfeatures⟩ => ⟨hne, hsolid, hhead, hpos, hbase, hfeatures⟩,
      fun h => ⟨h.word_ne, h.word_solid, h.word_head, h.pos, h.baseForm, h.features⟩⟩

/-- The features with other values under the same names. -/
def Features.mapValues (given : String → FeatureValue → FeatureValue) (features : Features) : Features :=
  features.map fun f => (f.1, given f.1 f.2)

def Reading.mapValues (given : String → FeatureValue → FeatureValue) (r : Reading) : Reading :=
  { r with features := r.features.mapValues given }

namespace Lexicon

def mapValues (given : String → FeatureValue → FeatureValue) (lex : Lexicon) : Lexicon :=
  ⟨lex.headwords.map fun h => ⟨h.key, h.readings.map (Reading.mapValues given)⟩⟩

variable {given : String → FeatureValue → FeatureValue}

private theorem readings_mapValues (lex : Lexicon) :
    (lex.mapValues given).readings = lex.readings.map (Reading.mapValues given) := by
  rw [readings, readings, mapValues, List.flatMap_map, List.map_flatMap]

private theorem mapValues_eq_self (lex : Lexicon) : lex.mapValues (fun _ v => v) = lex := by
  have hfeatures (features : Features) : features.mapValues (fun _ v => v) = features := List.map_id _
  have hreading : Reading.mapValues (fun _ v => v) = id := by
    funext r
    rw [Reading.mapValues, hfeatures]
    rfl
  rw [mapValues, hreading]
  simp

/-- A lexicon stays grouped when the values of its features are changed. -/
theorem Grouped.mapValues {hs : List Headword} (h : Grouped hs) :
    Grouped ((Lexicon.mk hs).mapValues given).headwords where
  keys := by simpa [Lexicon.mapValues, Function.comp_def] using h.keys
  nonempty := by
    refine List.forall_mem_map.2 fun found hfound => ?_
    simpa using h.nonempty found hfound
  words := by
    refine List.forall_mem_map.2 fun found hfound => List.forall_mem_map.2 fun r hr => ?_
    exact h.words found hfound r hr

/-- A feature as an item of a line. -/
def itemOf (f : String × FeatureValue) : List Char :=
  f.1.toList ++ '=' :: (valueText f.2).toList

/-- An item is split at its first sign of equality into the name and the value. -/
theorem splitPair?_append {name value : List Char} (hname : isWord name = true) (hvalue : value ≠ []) :
    splitPair? (name ++ '=' :: value) = some (name, value) := by
  have hword := (isWord_iff.1 hname).2
  have hstop : ∀ d ∈ ('=' :: value).head?, isWordChar d = false := by
    rintro _ ⟨⟩
    decide
  rw [splitPair?, takeWhile_append_stop hword hstop, dropWhile_append_stop hword hstop]
  exact if_neg (by simp [isWord.ne_nil hname, hvalue])

private theorem numeral_solid (n : Nat) : Solid (Decimal.numeral n) := by
  have hdigit : ∀ d < 10, isBlank (Decimal.digitChar d) = false := by decide
  intro c hc
  obtain ⟨d, hd, rfl⟩ := Decimal.mem_numeral hc
  exact hdigit d hd

private theorem toList_integerText {n : Int} (hn : 0 ≤ n) :
    (Decimal.integerText n).toList = Decimal.numeral n.natAbs := by
  rw [Decimal.integerText, String.toList_ofList, Decimal.integer, if_neg (by omega)]

/-- The text of a plain value is an item's end, and is read as that value. -/
theorem plain_valueText {name : String} {v : FeatureValue} (h : v.Plain name) :
    (valueText v).toList ≠ [] ∧ Solid (valueText v).toList ∧ readValue name (valueText v) = .ok v := by
  cases v with
  | text value =>
    obtain ⟨hne, hsolid, hdigits⟩ := h
    refine ⟨mt String.toList_eq_nil_iff.1 hne, hsolid, ?_⟩
    rw [readValue, valueText, if_neg]
    rw [Bool.and_eq_true_iff, Bool.and_eq_true_iff]
    rintro ⟨⟨hname, -⟩, hall⟩
    rw [hdigits (List.contains_iff_mem.1 hname)] at hall
    cases hall
  | number n =>
    obtain ⟨hname, hn, hlength⟩ := h
    have htext := toList_integerText hn
    have hdigits : ∀ d < 10, isDigit (Decimal.digitChar d) = true := by decide
    have hall : (Decimal.integerText n).toList.all isDigit = true := by
      rw [htext, List.all_eq_true]
      intro c hc
      obtain ⟨d, hd, rfl⟩ := Decimal.mem_numeral hc
      exact hdigits d hd
    have hne : (Decimal.integerText n).isEmpty = false := by
      rw [String.isEmpty_eq_false_iff, ne_eq, ← String.toList_eq_nil_iff, htext]
      exact Decimal.numeral_ne_nil _
    refine ⟨by rw [valueText, htext]; exact Decimal.numeral_ne_nil _,
      by rw [valueText, htext]; exact numeral_solid _, ?_⟩
    rw [valueText, readValue, List.contains_iff_mem.2 hname, hne, hall,
      Decimal.readInt_integerText hn hlength]
    rfl

private theorem legible_of_plain {r : Reading} (h : r.Plain) : r.Legible where
  word_ne := h.word_ne
  word_solid := h.word_solid
  word_head := h.word_head
  pos := h.pos
  baseForm := h.baseForm
  features := {
    names := h.features.names
    values := by
      intro f hf
      obtain ⟨hname, hlemma, hvalue⟩ := h.features.values f hf
      obtain ⟨hne, hsolid, -⟩ := plain_valueText hvalue
      exact ⟨hname, hlemma, mt String.toList_eq_nil_iff.2 hne, hsolid⟩ }

/-- The item of a feature is read as that feature, with the value that its text has under its name. -/
theorem readItems_itemOf_cons {f : String × FeatureValue} (hname : isWord f.1.toList = true)
    (hlemma : f.1 ≠ "lemma") (hne : valueText f.2 ≠ "") (before : Features) (baseForm? : Option String)
    (more : List (List Char)) :
    readItems before baseForm? (itemOf f :: more) =
      match readValue f.1 (valueText f.2) with
      | .error fault => .error (.badNumber fault)
      | .ok v => readItems (before.set f.1 v) baseForm? more := by
  have hlemma' : (f.1 == "lemma") = false := beq_false_of_ne hlemma
  rw [readItems, itemOf, splitPair?_append hname (mt String.toList_eq_nil_iff.1 hne)]
  dsimp only
  rw [String.ofList_toList, String.ofList_toList, hlemma']
  rfl

/-- The items of features are read as features, on top of those that came before. -/
theorem readItems_itemOf (before : Features) {features : Features}
    (hnames : ((before ++ features).map Prod.fst).Nodup)
    (hvalues : ∀ f ∈ features, isWord f.1.toList = true ∧ f.1 ≠ "lemma" ∧
      valueText f.2 ≠ "" ∧ readValue f.1 (valueText f.2) = .ok (given f.1 f.2))
    (baseForm? : Option String) (more : List (List Char)) :
    readItems before baseForm? (features.map itemOf ++ more) =
      readItems (before ++ features.mapValues given) baseForm? more := by
  induction features generalizing before with
  | nil => rw [Features.mapValues, List.map_nil, List.map_nil, List.append_nil]; rfl
  | cons f rest ih =>
    obtain ⟨⟨hname, hlemma, hne, hread⟩, hrest⟩ := List.forall_mem_cons.1 hvalues
    have hnew : f.1 ∉ before.map Prod.fst := by
      rw [List.map_append, List.nodup_append] at hnames
      exact fun hmem => hnames.2.2 f.1 hmem f.1 (by simp) rfl
    have hnames' : ((before ++ [(f.1, given f.1 f.2)] ++ rest).map Prod.fst).Nodup := by
      simpa using hnames
    rw [List.map_cons, List.cons_append, readItems_itemOf_cons hname hlemma hne, hread]
    dsimp only
    rw [Features.set_of_not_mem hnew, ih (before ++ [(f.1, given f.1 f.2)]) hnames' hrest,
      List.append_assoc]
    rfl

/-- The item of a base form that the word does not give. -/
def baseItems (r : Reading) : List (List Char) :=
  if r.baseForm == lower r.word then [] else ["lemma".toList ++ '=' :: r.baseForm.toList]

/-- All that stands behind the part of speech. -/
def itemsOf (r : Reading) : List (List Char) := r.features.map itemOf ++ baseItems r

private theorem toList_readingLine (r : Reading) :
    (readingLine r).toList =
      [' '].intercalate ((r.word.toList ++ " : ".toList ++ r.pos.toList) :: itemsOf r) := by
  have hitem : (String.toList ∘ fun f : String × FeatureValue => f.1 ++ "=" ++ valueText f.2) = itemOf := by
    funext f
    simp [itemOf]
  rw [readingLine, String.toList_intercalate]
  dsimp only
  rw [itemsOf, baseItems, ← hitem]
  split <;> simp

/-- The items of a legible reading are not empty and have no blanks at their ends. -/
theorem itemsOf_solid {r : Reading} (h : r.Legible) : ∀ item ∈ itemsOf r, item ≠ [] ∧ Solid item := by
  intro item hitem
  rcases List.mem_append.1 hitem with hfeature | hbase
  · obtain ⟨f, hf, rfl⟩ := List.mem_map.1 hfeature
    obtain ⟨hname, -, -, hvalue⟩ := h.features.values f hf
    refine ⟨by simp [itemOf], (Solid.of_isWord hname).append ?_⟩
    exact List.forall_mem_cons.2 ⟨by decide, hvalue⟩
  · rw [baseItems] at hbase
    split at hbase
    · cases hbase
    · obtain rfl := List.mem_singleton.1 hbase
      refine ⟨by simp, Solid.append (by decide) ?_⟩
      exact List.forall_mem_cons.2 ⟨by decide, h.baseForm⟩

private theorem newline_not_mem_readingLine {r : Reading} (h : r.Legible) :
    '\n' ∉ (readingLine r).toList := by
  rw [toList_readingLine]
  intro hmem
  rcases mem_intercalate hmem with hgap | ⟨part, hpart, hmem⟩
  · exact absurd hgap (by decide)
  · rcases List.mem_cons.1 hpart with rfl | hitem
    · have hword := h.word_solid.not_mem (c := '\n') (by decide)
      have hpos := not_mem_of_isWord h.pos (c := '\n') (by decide)
      simp [hword, hpos] at hmem
    · exact (itemsOf_solid h part hitem).2.not_mem (by decide) hmem

/-- A line of a reading is read as it stands. -/
theorem trim_readingLine {r : Reading} (h : r.Legible) :
    trim (readingLine r).toList = (readingLine r).toList ∧ isSilent (readingLine r).toList = false := by
  obtain ⟨c, rest, hword⟩ := List.exists_cons_of_ne_nil (mt String.toList_eq_nil_iff.1 h.word_ne)
  have hhead : (readingLine r).toList.head? = some c := by
    rw [toList_readingLine, intercalate_cons_eq_flatMap, hword]
    rfl
  constructor
  · refine trim_eq_self ?_ ?_
    · rw [hhead]
      rintro _ ⟨⟩
      exact h.word_solid _ (hword ▸ List.mem_cons_self)
    · have hparts : ∀ part ∈ (r.word.toList ++ " : ".toList ++ r.pos.toList) :: itemsOf r, part ≠ [] :=
        List.forall_mem_cons.2 ⟨by simp, fun item hitem => (itemsOf_solid h item hitem).1⟩
      obtain ⟨last, hlast, heq⟩ := getLast?_intercalate [' '] (List.cons_ne_nil _ _) hparts
      rw [toList_readingLine, heq]
      intro d hd
      rcases List.mem_cons.1 hlast with rfl | hitem
      · rw [List.getLast?_append, List.getLast?_eq_some_getLast (isWord.ne_nil h.pos), Option.some_or] at hd
        exact Solid.of_isWord h.pos d (List.mem_of_getLast? (by rwa [List.getLast?_eq_some_getLast]))
      · exact (itemsOf_solid h last hitem).2 d (List.mem_of_getLast? hd)
  · obtain ⟨more, heq⟩ := List.head?_eq_some_iff.1 hhead
    rw [heq, isSilent, beq_eq_false_iff_ne]
    rintro rfl
    exact h.word_head (by rw [hword]; rfl)

private theorem isOneLine_of_not_mem {cs : List Char} (h : '\n' ∉ cs) : isOneLine cs = true := by
  induction cs with
  | nil => rfl
  | cons c rest ih =>
    have hc : c ≠ '\n' := fun heq => h (heq ▸ List.mem_cons_self)
    rw [isOneLine, ih fun hmem => h (List.mem_cons_of_mem _ hmem)]
    · simp [hc]
    · rintro rfl
      exact absurd rfl hc

/-- Blanks end the longest word. -/
theorem wordSplits_spaced {word gap : List Char} (hne : word ≠ []) (hsolid : Solid word)
    (hgap : ∀ c ∈ gap, isBlank c = true) (hgap' : gap ≠ []) (after : List Char) :
    ∃ others, wordSplits (word ++ gap ++ ':' :: after) = (word, after) :: others := by
  have hrun : ∀ c ∈ word, (!isBlank c) = true := fun c hc => by rw [hsolid c hc]; rfl
  have hblank : ∀ c ∈ (gap ++ ':' :: after).head?, (!isBlank c) = false := by
    obtain ⟨first, more, rfl⟩ := List.exists_cons_of_ne_nil hgap'
    rintro _ ⟨⟩
    rw [hgap first List.mem_cons_self]
    rfl
  have hcolon : ∀ c ∈ (':' :: after).head?, isBlank c = false := by
    rintro _ ⟨⟩
    decide
  have htail : trimLeft (gap ++ ':' :: after) = ':' :: after := dropWhile_append_stop hgap hcolon
  obtain ⟨first, more, rfl⟩ := List.exists_cons_of_ne_nil hne
  rw [List.append_assoc, wordSplits, takeWhile_append_stop hrun hblank, dropWhile_append_stop hrun hblank,
    htail]
  exact ⟨_, rfl⟩

/-- Blanks in front of a part of speech are trimmed away, and nothing else. -/
theorem trimLeft_lead {lead pos : List Char} (hlead : ∀ c ∈ lead, isBlank c = true)
    (hpos : isWord pos = true) (rest : List Char) : trimLeft (lead ++ pos ++ rest) = pos ++ rest := by
  obtain ⟨first, more, rfl⟩ := List.exists_cons_of_ne_nil (isWord.ne_nil hpos)
  rw [List.append_assoc]
  refine dropWhile_append_stop hlead ?_
  rintro _ ⟨⟩
  exact Solid.of_isWord hpos first List.mem_cons_self

/-- The longest word is taken if a part of speech stands behind its colon. -/
theorem splitLine?_of_wordSplits {line word lead pos rest : List Char}
    {others : List (List Char × List Char)}
    (hsplits : wordSplits line = (word, lead ++ pos ++ rest) :: others)
    (hlead : ∀ c ∈ lead, isBlank c = true) (hpos : isWord pos = true)
    (hstop : ∀ c ∈ rest.head?, isWordChar c = false) (hline : '\n' ∉ rest) :
    splitLine? line = some (word, pos, rest) := by
  have hchars := (isWord_iff.1 hpos).2
  rw [splitLine?, hsplits, List.findSome?_cons]
  dsimp only
  rw [trimLeft_lead hlead hpos, takeWhile_append_stop hchars hstop, dropWhile_append_stop hchars hstop,
    if_pos (by simp [isWord.ne_nil hpos, isOneLine_of_not_mem hline])]

private theorem splitLine?_spaced {word pos rest : List Char} (hne : word ≠ []) (hsolid : Solid word)
    (hpos : isWord pos = true) (hstop : ∀ c ∈ rest.head?, isWordChar c = false) (hline : '\n' ∉ rest) :
    splitLine? (word ++ " : ".toList ++ pos ++ rest) = some (word, pos, rest) := by
  have hline' : word ++ " : ".toList ++ pos ++ rest = word ++ [' '] ++ ':' :: ([' '] ++ pos ++ rest) := by
    simp
  have hgap : ∀ c ∈ [' '], isBlank c = true := List.forall_mem_singleton.2 (by decide)
  obtain ⟨others, hsplits⟩ := wordSplits_spaced hne hsolid hgap (by decide) ([' '] ++ pos ++ rest)
  rw [hline']
  exact splitLine?_of_wordSplits hsplits hgap hpos hstop hline

/-- The base form is read as it was kept. -/
theorem readItems_itemsOf {r : Reading} (h : r.Legible) (hbase : r.baseForm ≠ "")
    (hread : ∀ f ∈ r.features, readValue f.1 (valueText f.2) = .ok (given f.1 f.2)) :
    ∃ baseForm?, readItems [] none (itemsOf r) = .ok (r.features.mapValues given, baseForm?) ∧
      ∀ lex : Lexicon, lex.add r.word r.pos (r.features.mapValues given) baseForm? =
        ⟨insert (r.mapValues given) (lower r.word) lex.headwords⟩ := by
  have hvalues : ∀ f ∈ r.features, isWord f.1.toList = true ∧ f.1 ≠ "lemma" ∧
      valueText f.2 ≠ "" ∧ readValue f.1 (valueText f.2) = .ok (given f.1 f.2) := by
    intro f hf
    obtain ⟨hname, hlemma, hne, -⟩ := h.features.values f hf
    exact ⟨hname, hlemma, hne, hread f hf⟩
  rw [itemsOf, readItems_itemOf [] h.features.names hvalues, baseItems, List.nil_append]
  split
  · next hlower =>
    refine ⟨none, rfl, fun lex => ?_⟩
    rw [add, ← eq_of_beq hlower]
    rfl
  · refine ⟨some r.baseForm, ?_, fun lex => ?_⟩
    · rw [readItems, splitPair?_append (by decide) (mt String.toList_eq_nil_iff.1 hbase)]
      dsimp only
      rw [if_pos (by decide), String.ofList_toList]
      rfl
    · exact add_eq lex _ _ _ (by simpa using hbase)

/-- A line of a reading is cut where its parts were put together. -/
theorem splitLine?_readingLine {r : Reading} (h : r.Legible) :
    splitLine? (readingLine r).toList =
      some (r.word.toList, r.pos.toList, (itemsOf r).flatMap ([' '] ++ ·)) := by
  have hline : (readingLine r).toList =
      r.word.toList ++ " : ".toList ++ r.pos.toList ++ (itemsOf r).flatMap ([' '] ++ ·) := by
    rw [toList_readingLine, intercalate_cons_eq_flatMap]
  have hstop : ∀ c ∈ ((itemsOf r).flatMap ([' '] ++ ·)).head?, isWordChar c = false := by
    cases itemsOf r with
    | nil => simp
    | cons item rest =>
      rintro _ ⟨⟩
      decide
  have hbreak : '\n' ∉ (itemsOf r).flatMap ([' '] ++ ·) := by
    intro hmem
    refine newline_not_mem_readingLine h ?_
    rw [hline]
    exact List.mem_append_right _ hmem
  rw [hline]
  exact splitLine?_spaced (mt String.toList_eq_nil_iff.1 h.word_ne) h.word_solid h.pos hstop hbreak

/-- A line of a reading adds that reading to its headword, with the values that are read. -/
theorem readLine_readingLine {r : Reading} (h : r.Legible) (hbase : r.baseForm ≠ "")
    (hread : ∀ f ∈ r.features, readValue f.1 (valueText f.2) = .ok (given f.1 f.2)) (lex : Lexicon) :
    readLine lex (readingLine r).toList =
      (⟨insert (r.mapValues given) (lower r.word) lex.headwords⟩, none) := by
  obtain ⟨baseForm?, hitems, hadd⟩ := readItems_itemsOf h hbase hread
  rw [readLine, splitLine?_readingLine h]
  dsimp only
  rw [items_flatMap (itemsOf_solid h), hitems]
  dsimp only
  rw [String.ofList_toList, String.ofList_toList, hadd]

/-- Adds a reading where its word belongs. -/
def regroup (hs : List Headword) (r : Reading) : List Headword := insert r (lower r.word) hs

private theorem readLinesFrom_readingLine {rs : List Reading} (h : ∀ r ∈ rs, r.Legible ∧ r.baseForm ≠ "")
    (hread : ∀ r ∈ rs, ∀ f ∈ r.features, readValue f.1 (valueText f.2) = .ok (given f.1 f.2))
    (number : Nat) (lex : Lexicon) :
    readLinesFrom readLine number lex ((rs.map readingLine).map String.toList) =
      (⟨(rs.map (Reading.mapValues given)).foldl regroup lex.headwords⟩, none) := by
  induction rs generalizing number lex with
  | nil => rfl
  | cons r rest ih =>
    obtain ⟨⟨hr, hbase⟩, hrest⟩ := List.forall_mem_cons.1 h
    obtain ⟨hvalues, hothers⟩ := List.forall_mem_cons.1 hread
    obtain ⟨htrim, hspeaks⟩ := trim_readingLine hr
    rw [List.map_cons, List.map_cons, readLinesFrom_cons (by rw [htrim, hspeaks])
      (by rw [htrim, readLine_readingLine hr hbase hvalues]), ih hrest hothers]
    rfl

private theorem insert_append {before : List Headword} {key : String} (h : key ∉ before.map Headword.key)
    (r : Reading) (behind : List Headword) :
    insert r key (before ++ behind) = before ++ insert r key behind := by
  induction before with
  | nil => rfl
  | cons first rest ih =>
    obtain ⟨hfirst, hrest⟩ := not_or.1 (List.mem_cons.not.1 h)
    have hne : (first.key == key) = false := beq_false_of_ne fun heq => hfirst heq.symm
    rw [List.cons_append, insert, hne, ih hrest]
    rfl

/-- The readings of one headword, added behind others, make that headword. -/
theorem foldl_regroup_readings {before : List Headword} {key : String} (h : key ∉ before.map Headword.key)
    {rs : List Reading} (hwords : ∀ r ∈ rs, lower r.word = key) (old : List Reading) :
    rs.foldl regroup (before ++ [⟨key, old⟩]) = before ++ [⟨key, old ++ rs⟩] := by
  induction rs generalizing old with
  | nil => rw [List.append_nil]; rfl
  | cons r rest ih =>
    obtain ⟨hr, hrest⟩ := List.forall_mem_cons.1 hwords
    have hinsert : insert r key [⟨key, old⟩] = [⟨key, old ++ [r]⟩] := by simp [insert]
    rw [List.foldl_cons, regroup, hr, insert_append h, hinsert, ih hrest, List.append_assoc,
      List.singleton_append]

private theorem foldl_regroup {hs before : List Headword} (h : Grouped (before ++ hs)) :
    (hs.flatMap Headword.readings).foldl regroup before = before ++ hs := by
  induction hs generalizing before with
  | nil => rw [List.append_nil]; rfl
  | cons first rest ih =>
    have hassoc : before ++ first :: rest = before ++ [first] ++ rest := by simp
    have hkeys := h.keys
    rw [List.map_append, List.nodup_append] at hkeys
    have hnew : first.key ∉ before.map Headword.key :=
      fun hmem => hkeys.2.2 first.key hmem first.key (by simp) rfl
    have hwords := h.words first (by simp)
    obtain ⟨key, readings⟩ := first
    have hreadings := h.nonempty ⟨key, readings⟩ (by simp)
    obtain ⟨r, rs, rfl⟩ := List.exists_cons_of_ne_nil hreadings
    obtain ⟨hr, hrs⟩ := List.forall_mem_cons.1 hwords
    have hstart : regroup before r = before ++ [⟨key, [r]⟩] := by
      have hinsert := insert_append hnew r []
      rw [List.append_nil] at hinsert
      rw [regroup, hr, hinsert]
      rfl
    rw [List.flatMap_cons, List.foldl_append, List.foldl_cons, hstart, foldl_regroup_readings hnew hrs,
      List.singleton_append, ih (hassoc ▸ h), ← hassoc]

/-- A lexicon is read from its text line by line. -/
theorem ofText_toText_iff_lines {lex lex' : Lexicon} (h : ∀ r ∈ lex.readings, r.Legible) :
    ofText lex.toText = .ok lex' ↔
      readLinesFrom readLine 1 empty ((lex.readings.map readingLine).map String.toList) = (lex', none) := by
  have hlines : ∀ l ∈ lex.readings.map readingLine, '\n' ∉ l.toList :=
    List.forall_mem_map.2 fun r hr => newline_not_mem_readingLine (h r hr)
  rw [ofText_eq_ok_iff, toText, readText_intercalate_iff hlines]

/-- If all values can be read, the lexicon comes back with the values that are read. -/
theorem ofText_toText_of_legible {lex : Lexicon} (hgrouped : Grouped lex.headwords)
    (h : ∀ r ∈ lex.readings, r.Legible ∧ r.baseForm ≠ "")
    (hread : ∀ r ∈ lex.readings, ∀ f ∈ r.features, readValue f.1 (valueText f.2) = .ok (given f.1 f.2)) :
    ofText lex.toText = .ok (lex.mapValues given) := by
  have hregroup : (lex.mapValues given).readings.foldl regroup [] = (lex.mapValues given).headwords :=
    foldl_regroup hgrouped.mapValues
  rw [ofText_toText_iff_lines fun r hr => (h r hr).1, readLinesFrom_readingLine h hread,
    ← readings_mapValues, empty, hregroup]

/-- Every reading that a text gives is plain; and a lexicon to which plain readings were added is read
back from its text, headword by headword. -/
theorem plain_round_trip :
    (∀ (text : String) (lex : Lexicon), ofText text = .ok lex → ∀ r ∈ lex.readings, r.Plain) ∧
      ∀ lex : Lexicon, Made lex → ofText lex.toText = .ok lex := by
  constructor
  · intro text lex h r hr
    exact ((made_of_ofText h).spec.2 r hr).toPlain
  · intro lex h
    obtain ⟨hgrouped, hkept⟩ := h.spec
    have hlegible : ∀ r ∈ lex.readings, r.Legible ∧ r.baseForm ≠ "" := fun r hr =>
      ⟨legible_of_plain (hkept r hr).toPlain, (hkept r hr).baseForm_ne⟩
    have hread : ∀ r ∈ lex.readings, ∀ f ∈ r.features, readValue f.1 (valueText f.2) = .ok f.2 := by
      intro r hr f hf
      obtain ⟨-, -, hvalue⟩ := (hkept r hr).features.values f hf
      exact (plain_valueText hvalue).2.2
    have hback := @ofText_toText_of_legible (fun _ v => v) lex hgrouped hlegible hread
    rwa [mapValues_eq_self] at hback

/-- Colons inside a word and at its end, values of every kind, a word whose lower case is longer, a base
form that is no lower case, and a word that comes back in capitals. -/
def awkward : Lexicon :=
  ((empty.add "x:y:" "N" [("person", .number 30), ("e", .text "=:#")]).add "İΣ" "V2" [] (some "Be")).add
    "X:Y:" "PN" [("person", .text "3nd")]

private theorem made_awkward : Made awkward :=
  ((Made.empty.add (by decide +kernel)).add (by decide +kernel)).add (by decide +kernel)

/-- A word with a colon in it, a value with a sign of equality, and a person with a zero in front. -/
theorem plain_round_trip_awkward :
    ofText "x:y: N person=07 lemma=y e=a=b" =
        .ok (empty.add "x:y" "N" [("person", .number 7), ("e", .text "a=b")] (some "y")) ∧
      (∀ r ∈ (empty.add "x:y" "N" [("person", .number 7), ("e", .text "a=b")] (some "y")).readings,
        r.Plain) ∧
      Made awkward ∧ ofText awkward.toText = .ok awkward := by
  have hread : ofText "x:y: N person=07 lemma=y e=a=b" =
      .ok (empty.add "x:y" "N" [("person", .number 7), ("e", .text "a=b")] (some "y")) := by
    decide +kernel
  exact ⟨hread, plain_round_trip.1 _ _ hread, made_awkward, plain_round_trip.2 awkward made_awkward⟩

end Lexicon

end Earley
