import Earley.Proofs.Lexicon.Syntax

namespace Earley.Lexicon

open Earley.Text

/-- A lexicon to which readings that can be written were added, one after the other. A reading without
a base form gets one from its word. -/
inductive Gathered : Lexicon → Prop
  | empty : Gathered empty
  | add {lex : Lexicon} {word pos : String} {features : Features} {baseForm? : Option String} :
      Gathered lex → Reading.Legible ⟨word, pos, baseForm?.getD "", features⟩ →
      Gathered (lex.add word pos features baseForm?)

/-- What a gathered lexicon is: grouped, with legible readings that have lemmas. -/
theorem Gathered.spec {lex : Lexicon} (h : Gathered lex) :
    Grouped lex.headwords ∧ ∀ r ∈ lex.readings, r.Legible ∧ r.baseForm ≠ "" := by
  induction h with
  | empty => exact ⟨Grouped.nil, List.forall_mem_nil _⟩
  | add _ hlegible ih =>
    refine ⟨ih.1.add _ _ _ _, fun r hr => ?_⟩
    rcases mem_readings_add hlegible.word_ne hlegible.word_solid hlegible.baseForm hr with
      hold | ⟨baseForm, rfl, hsolid, hne⟩
    · exact ih.2 r hold
    · exact ⟨{ hlegible with baseForm := hsolid }, hne⟩

/-- The value that a line gives to the text of a value. -/
def reread (name : String) (v : FeatureValue) : FeatureValue := givenValue name (valueText v)

/-- Every person in digits is in decimal digits, and not in too many of them. -/
def DecimalPersons (features : Features) : Prop :=
  ∀ f ∈ features, f.1 = "person" → (valueText f.2).toList.all isDigit = true →
    (valueText f.2).toList.all isDecimal = true ∧
      (valueText f.2).toList.length ≤ Decimal.maxIntDigits

instance (features : Features) : Decidable (DecimalPersons features) :=
  inferInstanceAs (Decidable (∀ f ∈ features, f.1 = "person" →
    (valueText f.2).toList.all isDigit = true → (valueText f.2).toList.all isDecimal = true ∧
      (valueText f.2).toList.length ≤ Decimal.maxIntDigits))

private theorem exists_readValue_iff {name value : String} (hne : value ≠ "") (hsolid : Solid value.toList) :
    (∃ v, readValue name value = .ok v) ↔ (name = "person" → value.toList.all isDigit = true →
      value.toList.all isDecimal = true ∧ value.toList.length ≤ Decimal.maxIntDigits) := by
  constructor
  · rintro ⟨v, hv⟩ rfl hdigits
    rw [readValue, if_pos (by simp [numericNames, hdigits, hne])] at hv
    apply (Decimal.exists_readInt_iff hsolid hdigits hne).1
    cases hread : Decimal.readInt value with
    | error fault =>
      rw [hread] at hv
      cases hv
    | ok n => exact ⟨n, rfl⟩
  · intro h
    refine ⟨givenValue name value, readValue_eq_givenValue hne hsolid fun hname hdigits => ?_⟩
    exact (Decimal.exists_readInt_iff hsolid hdigits hne).2 (h hname hdigits)

/-- Where the items of features are read, each value is. -/
theorem exists_readValue_of_readItems {features before : Features} {baseForm? : Option String}
    {more : List (List Char)} {found : Features × Option String}
    (hvalues : ∀ f ∈ features, isWord f.1.toList = true ∧ f.1 ≠ "lemma" ∧ valueText f.2 ≠ "")
    (h : readItems before baseForm? (features.map itemOf ++ more) = .ok found) :
    ∀ f ∈ features, ∃ v, readValue f.1 (valueText f.2) = .ok v := by
  induction features generalizing before with
  | nil => exact List.forall_mem_nil _
  | cons f rest ih =>
    obtain ⟨⟨hname, hlemma, hne⟩, hrest⟩ := List.forall_mem_cons.1 hvalues
    rw [List.map_cons, List.cons_append, readItems_itemOf_cons hname hlemma hne] at h
    cases hread : readValue f.1 (valueText f.2) with
    | error fault =>
      rw [hread] at h
      cases h
    | ok v =>
      rw [hread] at h
      exact List.forall_mem_cons.2 ⟨⟨v, hread⟩, ih hrest h⟩

/-- So it is where the line of a reading is read. -/
theorem decimalPersons_of_readLine {r : Reading} (hr : r.Legible) {lex lex' : Lexicon}
    (h : readLine lex (readingLine r).toList = (lex', none)) : DecimalPersons r.features := by
  have hitems : ∃ found, readItems [] none (itemsOf r) = .ok found := by
    rw [readLine, splitLine?_readingLine hr] at h
    dsimp only at h
    rw [items_flatMap (itemsOf_solid hr)] at h
    split at h
    · cases h
    · next hread => exact ⟨_, hread⟩
  obtain ⟨found, hfound⟩ := hitems
  have hvalues : ∀ f ∈ r.features, isWord f.1.toList = true ∧ f.1 ≠ "lemma" ∧ valueText f.2 ≠ "" := by
    intro f hf
    obtain ⟨hname, hlemma, hne, -⟩ := hr.features.values f hf
    exact ⟨hname, hlemma, hne⟩
  intro f hf
  obtain ⟨-, -, hne, hsolid⟩ := hr.features.values f hf
  exact (exists_readValue_iff hne hsolid).1 (exists_readValue_of_readItems hvalues hfound f hf)

private theorem readValue_eq_reread {features : Features} (h : features.Legible)
    (hpersons : DecimalPersons features) :
    ∀ f ∈ features, readValue f.1 (valueText f.2) = .ok (reread f.1 f.2) := by
  intro f hf
  obtain ⟨-, -, hne, hsolid⟩ := h.values f hf
  refine readValue_eq_givenValue hne hsolid fun hname hdigits => ?_
  exact (Decimal.exists_readInt_iff hsolid hdigits hne).2 (hpersons f hf hname hdigits)

/-- A lexicon is read from its text just if its persons in digits are in decimal digits, and not in too
many of them; then it comes back as it was, but that these are numbers. -/
theorem values_read_back {lex : Lexicon} (h : Gathered lex) (lex' : Lexicon) :
    ofText lex.toText = .ok lex' ↔
      (∀ r ∈ lex.readings, DecimalPersons r.features) ∧ lex' = lex.mapValues reread := by
  obtain ⟨hgrouped, hlegible⟩ := h.spec
  have hback (hpersons : ∀ r ∈ lex.readings, DecimalPersons r.features) :
      ofText lex.toText = .ok (lex.mapValues reread) :=
    ofText_toText_of_legible hgrouped hlegible fun r hr =>
      readValue_eq_reread (hlegible r hr).1.features (hpersons r hr)
  constructor
  · intro hread
    have hpersons : ∀ r ∈ lex.readings, DecimalPersons r.features := by
      intro r hr
      have hr' := (hlegible r hr).1
      obtain ⟨htrim, hspeaks⟩ := trim_readingLine hr'
      have hlines := (ofText_toText_iff_lines fun r hr => (hlegible r hr).1).1 hread
      have hmem : (readingLine r).toList ∈ (lex.readings.map readingLine).map String.toList :=
        List.mem_map_of_mem (List.mem_map_of_mem hr)
      obtain ⟨before, after, hline⟩ := readLinesFrom_none_mem hlines hmem (by rw [htrim, hspeaks])
      rw [htrim] at hline
      exact decimalPersons_of_readLine hr' hline
    rw [hback hpersons] at hread
    exact ⟨hpersons, (Except.ok.inj hread).symm⟩
  · rintro ⟨hpersons, rfl⟩
    exact hback hpersons

/-- Digits under a name that does not take numbers, a person in the digits of another script, one that
is no number, and a superscript that is no person. -/
def numbered : Lexicon :=
  (empty.add "bond" "N" [("code", .text "007"), ("person", .text "٣")]).add "x:y" "V"
    [("person", .text "3rd"), ("power", .text "²")] (some "be")

private theorem gathered_numbered : Gathered numbered :=
  (Gathered.empty.add (by decide +kernel)).add (by decide +kernel)

/-- Digits under a name that has no numbers, a person in other digits, one with letters in it, and a
superscript. -/
theorem values_read_back_numbered :
    Gathered numbered ∧ (∀ r ∈ numbered.readings, DecimalPersons r.features) ∧
      ofText numbered.toText =
        .ok ((empty.add "bond" "N" [("code", .text "007"), ("person", .number 3)]).add "x:y" "V"
          [("person", .text "3rd"), ("power", .text "²")] (some "be")) := by
  have hpersons : ∀ r ∈ numbered.readings, DecimalPersons r.features := by decide +kernel
  refine ⟨gathered_numbered, hpersons, ?_⟩
  exact (values_read_back gathered_numbered _).2 ⟨hpersons, by decide +kernel⟩

/-- A superscript is a digit, so that a person in superscripts is taken for a number; but it is none. -/
theorem superscript_rejected :
    Gathered (empty.add "x" "N" [("person", .text "²")]) ∧
      ofText (empty.add "x" "N" [("person", .text "²")]).toText =
        .error ⟨1, "x : N person=²", .badNumber (.malformed "²")⟩ :=
  ⟨Gathered.empty.add (by decide +kernel), by decide +kernel⟩

end Earley.Lexicon
