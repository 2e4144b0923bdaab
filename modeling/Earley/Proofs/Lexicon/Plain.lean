import Earley.Lexicon.Text
import Earley.Proofs.Decimal.Integer
import Earley.Proofs.Text.Lines
import Earley.Proofs.Text.Lower

namespace Earley

open Earley.Text

/-- A value that can be written behind the name of its feature. Only some names take numbers, and
under these a text must not look like one. -/
def FeatureValue.Plain (name : String) : FeatureValue → Prop
  | .text value => value ≠ "" ∧ Solid value.toList ∧
      (name ∈ Lexicon.numericNames → value.toList.all isDigit = false)
  | .number n => name ∈ Lexicon.numericNames ∧ 0 ≤ n ∧
      (Decimal.numeral n.natAbs).length ≤ Decimal.maxIntDigits

instance (name : String) : (v : FeatureValue) → Decidable (v.Plain name)
  | .text value => inferInstanceAs (Decidable (value ≠ "" ∧ Solid value.toList ∧
      (name ∈ Lexicon.numericNames → value.toList.all isDigit = false)))
  | .number n => inferInstanceAs (Decidable (name ∈ Lexicon.numericNames ∧ 0 ≤ n ∧
      (Decimal.numeral n.natAbs).length ≤ Decimal.maxIntDigits))

/-- Features under distinct names, none of which is taken by the base form. -/
structure Features.Plain (features : Features) : Prop where
  names : (features.map Prod.fst).Nodup
  values : ∀ f ∈ features, isWord f.1.toList = true ∧ f.1 ≠ "lemma" ∧ f.2.Plain f.1

instance (features : Features) : Decidable features.Plain :=
  decidable_of_iff ((features.map Prod.fst).Nodup ∧
      ∀ f ∈ features, isWord f.1.toList = true ∧ f.1 ≠ "lemma" ∧ f.2.Plain f.1)
    ⟨fun ⟨hnames, hvalues⟩ => ⟨hnames, hvalues⟩, fun h => ⟨h.names, h.values⟩⟩

/-- A reading that a line can give. -/
structure Reading.Plain (r : Reading) : Prop where
  word_ne : r.word ≠ ""
  word_solid : Solid r.word.toList
  word_head : r.word.toList.head? ≠ some '#'
  pos : isWord r.pos.toList = true
  baseForm : Solid r.baseForm.toList
  features : r.features.Plain

instance (r : Reading) : Decidable r.Plain :=
  decidable_of_iff (r.word ≠ "" ∧ Solid r.word.toList ∧ r.word.toList.head? ≠ some '#' ∧
      isWord r.pos.toList = true ∧ Solid r.baseForm.toList ∧ r.features.Plain)
    ⟨fun ⟨hne, hsolid, hhead, hpos, hbase, hfeatures⟩ => ⟨hne, hsolid, hhead, hpos, hbase, hfeatures⟩,
      fun h => ⟨h.word_ne, h.word_solid, h.word_head, h.pos, h.baseForm, h.features⟩⟩

/-- A plain reading as a lexicon keeps it: there is a base form. -/
structure Reading.Kept (r : Reading) : Prop extends r.Plain where
  baseForm_ne : r.baseForm ≠ ""

namespace Features

variable {features : Features} {name : String} {value : FeatureValue}

/-- A feature that is set keeps its place among the names, or comes to their end. -/
theorem names_set (features : Features) (name : String) (value : FeatureValue) :
    (features.set name value).map Prod.fst =
      if name ∈ features.map Prod.fst then features.map Prod.fst
      else features.map Prod.fst ++ [name] := by
  induction features with
  | nil => rfl
  | cons f rest ih =>
    obtain ⟨n, v⟩ := f
    rw [set]
    by_cases hname : n = name
    · simp [hname]
    · have hname' : ¬name = n := fun heq => hname heq.symm
      simp only [beq_iff_eq, hname, if_false, List.map_cons, ih, List.mem_cons, hname', false_or]
      split <;> rfl

private theorem mem_set {f : String × FeatureValue} (h : f ∈ features.set name value) :
    f = (name, value) ∨ f ∈ features := by
  induction features with
  | nil => exact Or.inl (List.mem_singleton.1 h)
  | cons first rest ih =>
    obtain ⟨n, v⟩ := first
    rw [set] at h
    split at h
    · next hname =>
      obtain rfl := eq_of_beq hname
      rcases List.mem_cons.1 h with rfl | hrest
      · exact Or.inl rfl
      · exact Or.inr (List.mem_cons_of_mem _ hrest)
    · rcases List.mem_cons.1 h with rfl | hrest
      · exact Or.inr List.mem_cons_self
      · exact (ih hrest).imp_right (List.mem_cons_of_mem _)

/-- A new name comes last. -/
theorem set_of_not_mem (h : name ∉ features.map Prod.fst) :
    features.set name value = features ++ [(name, value)] := by
  induction features with
  | nil => rfl
  | cons f rest ih =>
    obtain ⟨n, v⟩ := f
    obtain ⟨hname, hrest⟩ := not_or.1 (List.mem_cons.not.1 h)
    have hne : (n == name) = false := beq_false_of_ne fun heq => hname heq.symm
    rw [set, hne, ih hrest]
    rfl

theorem Plain.nil : Plain [] := ⟨List.nodup_nil, by simp⟩

/-- Plain features stay so when one more is set to a plain value, under a word that is not kept for the
lemma. -/
theorem Plain.set (h : features.Plain) (hname : isWord name.toList = true) (hlemma : name ≠ "lemma")
    (hvalue : value.Plain name) : (features.set name value).Plain where
  names := by
    rw [names_set]
    split
    · exact h.names
    · next hnew => exact List.nodup_append.2 ⟨h.names, by simp, by grind⟩
  values := by
    intro f hf
    rcases mem_set hf with rfl | hold
    · exact ⟨hname, hlemma, hvalue⟩
    · exact h.values f hold

end Features

namespace Lexicon

/-- A word that is split off inside a run ends before one of its colons. -/
theorem mem_innerColons {tail before run word after : List Char}
    (h : (word, after) ∈ innerColons tail before run) :
    word ≠ [] ∧ ∃ behind, before.reverse ++ run = word ++ ':' :: behind ∧ after = behind ++ tail := by
  induction run generalizing before with
  | nil => cases h
  | cons c rest ih =>
    rw [innerColons] at h
    rcases List.mem_append.1 h with hlater | hhere
    · obtain ⟨hne, behind, hrun, hafter⟩ := ih hlater
      rw [List.reverse_cons, List.append_assoc, List.singleton_append] at hrun
      exact ⟨hne, behind, hrun, hafter⟩
    · split at hhere
      · next hcolon =>
        obtain ⟨rfl, rfl⟩ := Prod.mk.inj (List.mem_singleton.1 hhere)
        obtain ⟨hc, hbefore⟩ := Bool.and_eq_true_iff.1 hcolon
        obtain rfl := eq_of_beq hc
        exact ⟨by simpa using hbefore, rest, rfl, rfl⟩
      · cases hhere

/-- Whatever is split off a line is a word, perhaps blanks, and a colon. -/
theorem mem_wordSplits {line word after : List Char} (h : (word, after) ∈ wordSplits line) :
    word ≠ [] ∧ Solid word ∧
      ∃ gap, (∀ c ∈ gap, isBlank c = true) ∧ line = word ++ gap ++ ':' :: after := by
  have hrun : Solid (line.takeWhile (!isBlank ·)) := fun c hc => by
    simpa using List.all_eq_true.1 List.all_takeWhile c hc
  have hline : line.takeWhile (!isBlank ·) ++ line.dropWhile (!isBlank ·) = line :=
    List.takeWhile_append_dropWhile
  rw [wordSplits] at h
  rcases List.mem_append.1 h with hwhole | hinner
  · split at hwhole
    · next heq hcolon =>
      obtain ⟨rfl, rfl⟩ := Prod.mk.inj (List.mem_singleton.1 hwhole)
      refine ⟨by simp [heq], hrun, (line.dropWhile (!isBlank ·)).takeWhile isBlank,
        List.all_eq_true.1 List.all_takeWhile, ?_⟩
      rw [← hcolon, trimLeft, List.append_assoc, List.takeWhile_append_dropWhile, hline]
    · cases hwhole
  · obtain ⟨hne, behind, hword, rfl⟩ := mem_innerColons hinner
    rw [List.reverse_nil, List.nil_append] at hword
    refine ⟨hne, fun c hc => hrun c (hword ▸ List.mem_append_left _ hc), [], List.forall_mem_nil _, ?_⟩
    rw [List.append_nil, ← List.cons_append, ← List.append_assoc, ← hword, hline]

/-- What a line is split into: a word without blanks at its ends, a tag, and the rest, with blanks around
the colon. -/
theorem splitLine?_spec {line word pos rest : List Char} (h : splitLine? line = some (word, pos, rest)) :
    word ≠ [] ∧ Solid word ∧ isWord pos = true ∧ (∀ c ∈ rest.head?, isWordChar c = false) ∧
      ∃ gap lead, (∀ c ∈ gap, isBlank c = true) ∧ (∀ c ∈ lead, isBlank c = true) ∧
        line = word ++ gap ++ ':' :: (lead ++ pos ++ rest) := by
  rw [splitLine?] at h
  obtain ⟨⟨found, after⟩, hmem, hfound⟩ := List.exists_of_findSome?_eq_some h
  obtain ⟨hne, hsolid, gap, hgap, hline⟩ := mem_wordSplits hmem
  dsimp only at hfound
  split at hfound
  · next hpos =>
    cases hfound
    refine ⟨hne, hsolid, ?_, ?_, gap, after.takeWhile isBlank, hgap,
      List.all_eq_true.1 List.all_takeWhile, ?_⟩
    · exact Bool.and_eq_true_iff.2 ⟨(Bool.and_eq_true_iff.1 hpos).1, List.all_takeWhile⟩
    · intro c hc
      have hstop := List.head?_dropWhile_not isWordChar (trimLeft after)
      rwa [Option.mem_def.1 hc] at hstop
    · rw [List.append_assoc (List.takeWhile _ _), List.takeWhile_append_dropWhile, trimLeft,
        List.takeWhile_append_dropWhile, hline]
  · cases hfound

/-- What an item is split into: a name that is a word, and a value that is not empty. -/
theorem splitPair?_spec {item name value : List Char} (h : splitPair? item = some (name, value)) :
    isWord name = true ∧ value ≠ [] ∧ item = name ++ '=' :: value := by
  rw [splitPair?] at h
  split at h
  · next hdrop =>
    split at h
    · cases h
    · next hnonempty =>
      cases h
      rw [Bool.or_eq_true_iff, not_or] at hnonempty
      refine ⟨?_, by simpa using hnonempty.2, ?_⟩
      · exact Bool.and_eq_true_iff.2 ⟨by simpa using hnonempty.1, List.all_takeWhile⟩
      · rw [← hdrop, List.takeWhile_append_dropWhile]
  · cases h

/-- Digits under a name that takes numbers are read as one; any other value stays a text. -/
theorem plain_readValue {name value : String} {v : FeatureValue} (hne : value ≠ "")
    (hsolid : Solid value.toList) (h : readValue name value = .ok v) : v.Plain name := by
  rw [readValue] at h
  split at h
  · next hnumeric =>
    rw [Bool.and_eq_true_iff, Bool.and_eq_true_iff] at hnumeric
    cases hread : Decimal.readInt value with
    | error fault =>
      rw [hread] at h
      cases h
    | ok n =>
      rw [hread] at h
      cases h
      exact ⟨List.contains_iff_mem.1 hnumeric.1.1, Decimal.readInt_of_isDigit hsolid hnumeric.2 hne hread⟩
  · next htext =>
    cases h
    refine ⟨hne, hsolid, fun hname => ?_⟩
    rw [← Bool.not_eq_true]
    intro hdigits
    refine htext ?_
    rw [List.contains_iff_mem.2 hname, hdigits]
    simpa using hne

private theorem plain_readItems {features found : Features} {baseForm? foundForm? : Option String}
    {parts : List (List Char)} (hparts : ∀ part ∈ parts, Solid part) (hfeatures : features.Plain)
    (hbase : ∀ form ∈ baseForm?, Solid form.toList)
    (h : readItems features baseForm? parts = .ok (found, foundForm?)) :
    found.Plain ∧ ∀ form ∈ foundForm?, Solid form.toList := by
  induction parts generalizing features baseForm? with
  | nil =>
    cases h
    exact ⟨hfeatures, hbase⟩
  | cons part rest ih =>
    obtain ⟨hsolid, hrest⟩ := List.forall_mem_cons.1 hparts
    rw [readItems] at h
    split at h
    · cases h
    · next name value hsplit =>
      obtain ⟨hname, hne, rfl⟩ := splitPair?_spec hsplit
      have hsolid' : Solid (String.ofList value).toList := by
        rw [String.toList_ofList]
        exact fun c hc => hsolid c (List.mem_append_right _ (List.mem_cons_of_mem _ hc))
      dsimp only at h
      split at h
      · refine ih hrest hfeatures ?_ h
        rintro _ ⟨⟩
        exact hsolid'
      · next hlemma =>
        split at h
        · cases h
        · next v hread =>
          refine ih hrest (hfeatures.set ?_ (by simpa using hlemma) (plain_readValue ?_ hsolid' hread)) hbase h
          · rwa [String.toList_ofList]
          · rw [ne_eq, ← String.toList_eq_nil_iff, String.toList_ofList]
            exact hne

/-- A lexicon to which plain readings were added, one after the other. A reading without a base form
gets one from its word. -/
inductive Made : Lexicon → Prop
  | empty : Made empty
  | add {lex : Lexicon} {word pos : String} {features : Features} {baseForm? : Option String} :
      Made lex → Reading.Plain ⟨word, pos, baseForm?.getD "", features⟩ →
      Made (lex.add word pos features baseForm?)

/-- Whatever a line adds is plain. -/
theorem made_readLine {lex : Lexicon} {line : List Char} (h : Made lex) (hspeaks : isSilent line = false) :
    Made (readLine lex line).1 := by
  rw [readLine]
  split
  · exact h
  · next word pos rest hsplit =>
    obtain ⟨hne, hsolid, hpos, -, gap, lead, -, -, rfl⟩ := splitLine?_spec hsplit
    split
    · exact h
    · next features baseForm? hread =>
      obtain ⟨hfeatures, hbase⟩ := plain_readItems (fun part hpart => (mem_items hpart).2.1)
        Features.Plain.nil (by simp) hread
      refine h.add ⟨?_, ?_, ?_, ?_, ?_, hfeatures⟩
      · rwa [ne_eq, ← String.toList_eq_nil_iff, String.toList_ofList]
      · rwa [String.toList_ofList]
      · rw [String.toList_ofList]
        obtain ⟨c, more, rfl⟩ := List.exists_cons_of_ne_nil hne
        rintro ⟨⟩
        cases hspeaks
      · rwa [String.toList_ofList]
      · cases baseForm? with
        | none => exact fun c hc => by cases hc
        | some form => exact hbase form rfl

/-- A text is a lexicon if its lines are read one after another without a fault. -/
theorem ofText_eq_ok_iff {text : String} {lex : Lexicon} :
    ofText text = .ok lex ↔ readText readLine empty text = (lex, none) := by
  rw [ofText, readAll]
  obtain ⟨found, fault⟩ := readText readLine empty text
  cases fault <;> simp

/-- A text gives nothing but plain readings. -/
theorem made_of_ofText {text : String} {lex : Lexicon} (h : ofText text = .ok lex) : Made lex := by
  have hmade := readText_induction text Made.empty
    fun _ _ hspeaks hlex => made_readLine hlex hspeaks
  rwa [ofText_eq_ok_iff.1 h] at hmade

/-- Headwords with readings, each under its own key. -/
structure Grouped (headwords : List Headword) : Prop where
  keys : (headwords.map Headword.key).Nodup
  nonempty : ∀ h ∈ headwords, h.readings ≠ []
  words : ∀ h ∈ headwords, ∀ r ∈ h.readings, lower r.word = h.key

theorem Grouped.nil : Grouped [] := ⟨List.nodup_nil, List.forall_mem_nil _, List.forall_mem_nil _⟩

/-- A reading goes to the word that it has, or to a new one behind the others. -/
theorem keys_insert (reading : Reading) (key : String) (hs : List Headword) :
    (insert reading key hs).map Headword.key =
      if key ∈ hs.map Headword.key then hs.map Headword.key else hs.map Headword.key ++ [key] := by
  induction hs with
  | nil => rfl
  | cons h rest ih =>
    rw [insert]
    by_cases hkey : h.key = key
    · simp [hkey]
    · have hkey' : ¬key = h.key := fun heq => hkey heq.symm
      simp only [beq_iff_eq, hkey, if_false, List.map_cons, ih, List.mem_cons, hkey', false_or]
      split <;> rfl

/-- What a headword holds after an addition: what it held before, or the new reading last. -/
theorem mem_insert {reading : Reading} {key : String} {hs : List Headword} {h : Headword}
    (hmem : h ∈ insert reading key hs) :
    h ∈ hs ∨ h = ⟨key, [reading]⟩ ∨ ∃ old ∈ hs, old.key = key ∧
      h = ⟨key, old.readings ++ [reading]⟩ := by
  induction hs with
  | nil => exact Or.inr (Or.inl (List.mem_singleton.1 hmem))
  | cons first rest ih =>
    rw [insert] at hmem
    split at hmem
    · next hkey =>
      obtain rfl := eq_of_beq hkey
      rcases List.mem_cons.1 hmem with rfl | hrest
      · exact Or.inr (Or.inr ⟨first, List.mem_cons_self, rfl, rfl⟩)
      · exact Or.inl (List.mem_cons_of_mem _ hrest)
    · rcases List.mem_cons.1 hmem with rfl | hrest
      · exact Or.inl List.mem_cons_self
      · rcases ih hrest with hold | hnew | ⟨old, hold, hkey, heq⟩
        · exact Or.inl (List.mem_cons_of_mem _ hold)
        · exact Or.inr (Or.inl hnew)
        · exact Or.inr (Or.inr ⟨old, List.mem_cons_of_mem _ hold, hkey, heq⟩)

/-- A grouped lexicon stays so when a reading is put to its word. -/
theorem Grouped.insert {hs : List Headword} (h : Grouped hs) (reading : Reading) :
    Grouped (insert reading (lower reading.word) hs) where
  keys := by
    rw [keys_insert]
    split
    · exact h.keys
    · next hnew => exact List.nodup_append.2 ⟨h.keys, by simp, by grind⟩
  nonempty := by
    intro found hfound
    rcases mem_insert hfound with hold | rfl | ⟨old, -, -, rfl⟩
    · exact h.nonempty found hold
    · simp
    · simp
  words := by
    intro found hfound r hr
    rcases mem_insert hfound with hold | rfl | ⟨old, hold, hkey, rfl⟩
    · exact h.words found hold r hr
    · rw [List.mem_singleton.1 hr]
    · rcases List.mem_append.1 hr with hr | hr
      · exact (h.words old hold r hr).trans hkey
      · rw [List.mem_singleton.1 hr]

/-- A reading that is put in is one more among the others. -/
theorem readings_insert (r : Reading) (key : String) (hs : List Headword) :
    ((insert r key hs).flatMap Headword.readings).Perm (hs.flatMap Headword.readings ++ [r]) := by
  induction hs with
  | nil => rfl
  | cons h rest ih =>
    rw [insert]
    split
    · rw [List.flatMap_cons, List.flatMap_cons, List.append_assoc, List.append_assoc]
      exact List.Perm.append_left _ List.perm_append_comm
    · rw [List.flatMap_cons, List.flatMap_cons, List.append_assoc]
      exact ih.append_left _

private theorem mem_readings_insert {reading r : Reading} {key : String} {hs : List Headword}
    (h : r ∈ (insert reading key hs).flatMap Headword.readings) :
    r = reading ∨ r ∈ hs.flatMap Headword.readings := by
  rw [(readings_insert reading key hs).mem_iff, List.mem_append, List.mem_singleton] at h
  exact h.symm

/-- A base form that is not empty is kept. -/
theorem add_eq (lex : Lexicon) (word pos : String) (features : Features) {baseForm? : Option String}
    (h : baseForm? ≠ some "") :
    lex.add word pos features baseForm? =
      ⟨insert ⟨word, pos, baseForm?.getD (lower word), features⟩ (lower word) lex.headwords⟩ := by
  cases baseForm? with
  | none => rfl
  | some form =>
    rw [add]
    · rfl
    · rintro rfl
      exact h rfl

/-- The reading that an addition inserts is the same for every lexicon. -/
theorem exists_add (word pos : String) (features : Features) (baseForm? : Option String) :
    ∃ baseForm, (baseForm = lower word ∨ baseForm? = some baseForm ∧ baseForm ≠ "") ∧
      ∀ lex : Lexicon, lex.add word pos features baseForm? =
        ⟨insert ⟨word, pos, baseForm, features⟩ (lower word) lex.headwords⟩ := by
  by_cases hempty : baseForm? = some ""
  · subst hempty
    exact ⟨_, Or.inl rfl, fun _ => rfl⟩
  · refine ⟨baseForm?.getD (lower word), ?_, fun lex => add_eq lex word pos features hempty⟩
    cases baseForm? with
    | none => exact Or.inl rfl
    | some form => exact Or.inr ⟨rfl, fun heq => hempty (congrArg some heq)⟩

/-- A grouped lexicon stays so when a word is added to it. -/
theorem Grouped.add {lex : Lexicon} (h : Grouped lex.headwords) (word pos : String) (features : Features)
    (baseForm? : Option String) : Grouped (lex.add word pos features baseForm?).headwords := by
  obtain ⟨baseForm, -, hadd⟩ := exists_add word pos features baseForm?
  rw [hadd]
  exact h.insert ⟨word, pos, baseForm, features⟩

/-- An addition leaves one reading more, and that one has a base form. -/
theorem mem_readings_add {lex : Lexicon} {word pos : String} {features : Features}
    {baseForm? : Option String} {r : Reading} (hne : word ≠ "") (hword : Solid word.toList)
    (hbase : Solid (baseForm?.getD "").toList) (h : r ∈ (lex.add word pos features baseForm?).readings) :
    r ∈ lex.readings ∨
      ∃ baseForm, r = ⟨word, pos, baseForm, features⟩ ∧ Solid baseForm.toList ∧ baseForm ≠ "" := by
  obtain ⟨baseForm, hform, hadd⟩ := exists_add word pos features baseForm?
  rw [readings, hadd] at h
  rcases mem_readings_insert h with rfl | hold
  · refine .inr ⟨baseForm, rfl, ?_⟩
    rcases hform with rfl | ⟨rfl, hform⟩
    · exact ⟨solid_lower hword, lower_ne_empty hne⟩
    · exact ⟨hbase, hform⟩
  · exact .inl hold

/-- What holds of a lexicon to which plain readings were added. -/
theorem Made.spec {lex : Lexicon} (h : Made lex) :
    Grouped lex.headwords ∧ ∀ r ∈ lex.readings, r.Kept := by
  induction h with
  | empty => exact ⟨Grouped.nil, List.forall_mem_nil _⟩
  | add _ hplain ih =>
    refine ⟨ih.1.add _ _ _ _, fun r hr => ?_⟩
    rcases mem_readings_add hplain.word_ne hplain.word_solid hplain.baseForm hr with
      hold | ⟨baseForm, rfl, hsolid, hne⟩
    · exact ih.2 r hold
    · exact { hplain with baseForm := hsolid, baseForm_ne := hne }

end Lexicon

end Earley
