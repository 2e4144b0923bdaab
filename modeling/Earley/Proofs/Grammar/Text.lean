import Earley.Grammar.Text
import Earley.Proofs.Decimal.Notation
import Earley.Proofs.Text.Lines

namespace Earley.Grammar

open Earley.Text

/-- The rules decide the index. -/
@[ext] theorem ext {g g' : Grammar} (h : g.rules = g'.rules) : g = g' := by
  have hindex : g.index = g'.index := by rw [g.indexed, g'.indexed, h]
  cases g
  cases g'
  cases h
  cases hindex
  rfl

instance : DecidableEq Grammar := fun g g' =>
  decidable_of_iff (g.rules = g'.rules) ⟨ext, fun h => h ▸ rfl⟩

/-- What a line stands for once its weight is split off. -/
def readBody (g : Grammar) (body : List Char) (weight : Weight) : Grammar × Option LineError :=
  match splitArrow? body with
  | none => (g, some .noArrow)
  | some (left, right) =>
    if isWord (trim left) then
      addAlternatives (String.ofList (trim left)) weight g (pieces (· == '|') right)
    else (g, some (.badLeft (String.ofList (trim left))))

/-- A line with a weight is read as what stands before it, with that weight. -/
theorem readLine_weighted {line front : List Char} {written : Decimal.Written}
    (h : splitWeight? line = some (front, written)) (g : Grammar) :
    readLine g line = readBody g front written.toBinary64 := by
  rw [readLine, h]
  rfl

/-- A line without a weight is read with the weight of one. -/
theorem readLine_bare {line : List Char} (h : splitWeight? line = none) (g : Grammar) :
    readLine g line = readBody g line Binary64.one := by
  rw [readLine, h]
  rfl

/-- A line is split at its first arrow, if no dash stands before that. -/
theorem splitArrow?_append {left : List Char} (h : '-' ∉ left) (right : List Char) :
    splitArrow? (left ++ '-' :: '>' :: right) = some (left, right) := by
  induction left with
  | nil => rfl
  | cons c rest ih =>
    obtain ⟨hc, hrest⟩ := not_or.1 (List.mem_cons.not.1 h)
    rw [List.cons_append, splitArrow?, ih hrest]
    · rfl
    · rintro _ rfl
      exact absurd rfl hc

/-- A weight in brackets ends the line. -/
theorem splitWeight?_brackets (front : List Char) {written : List Char} (h : '[' ∉ written) :
    splitWeight? (front ++ '[' :: (written ++ [']'])) =
      (Decimal.readWritten? written).map (trim front, ·) := by
  have hline : trimRight (front ++ '[' :: (written ++ [']'])) = front ++ '[' :: (written ++ [']']) := by
    have hlast : (front ++ '[' :: (written ++ [']'])).getLast? = some ']' := by
      rw [← List.cons_append, ← List.append_assoc, List.getLast?_concat]
    refine trimRight_eq_self ?_
    rw [hlast]
    rintro _ ⟨⟩
    decide
  have hreverse : (front ++ '[' :: (written ++ [']'])).reverse =
      ']' :: (written.reverse ++ '[' :: front.reverse) := by simp
  have hinside : ∀ c ∈ written.reverse, (c != '[') = true := by
    intro c hc
    exact bne_iff_ne.2 fun heq => h (heq ▸ List.mem_reverse.1 hc)
  rw [splitWeight?, hline, hreverse]
  simp only [List.dropWhile_append_of_pos hinside, List.takeWhile_append_of_pos hinside]
  simp

private theorem splitWeight?_eq_none {line : List Char}
    (h : ∀ c ∈ line.getLast?, isBlank c = false ∧ c ≠ ']') :
    splitWeight? line = none := by
  rw [splitWeight?, trimRight_eq_self fun c hc => (h c hc).1]
  split
  · next heq =>
    have hlast : line.getLast? = some ']' := by
      rw [List.getLast?_eq_head?_reverse, heq]
      rfl
    exact absurd rfl (h ']' hlast).2
  · rfl

section

variable {parts : List (List Char)}

private theorem items_cons_intercalate (hparts : ∀ part ∈ parts, part ≠ [] ∧ Solid part) :
    items (' ' :: [' '].intercalate parts) = parts := by
  rw [items_cons (by decide), items_intercalate hparts]

private theorem readAlternative_words (hne : parts ≠ []) (hparts : ∀ part ∈ parts, part ≠ [] ∧ Solid part)
    (hwords : parts.find? (!isWord ·) = none) :
    readAlternative (' ' :: [' '].intercalate parts) = .ok (parts.map String.ofList) := by
  rw [readAlternative, items_cons_intercalate hparts, if_neg (by simpa using hne)]
  simp only [hwords]

private theorem readAlternative_bad {bad : List Char} (hne : parts ≠ [])
    (hparts : ∀ part ∈ parts, part ≠ [] ∧ Solid part) (hbad : parts.find? (!isWord ·) = some bad) :
    readAlternative (' ' :: [' '].intercalate parts) = .error (.badSymbol (String.ofList bad)) := by
  rw [readAlternative, items_cons_intercalate hparts, if_neg (by simpa using hne)]
  simp only [hbad]

end

/-- The right-hand side of a rule is made of words. -/
def HasWords (r : Rule) : Prop := ∀ s ∈ r.rhs, isWord s.toList = true

/-- A rule as characters: the parts of its right-hand side stand behind an arrow. -/
def textOf (lhs : Symbol) (parts : List (List Char)) : List Char :=
  (lhs.toList ++ [' ']) ++ '-' :: '>' :: ' ' :: [' '].intercalate parts

private theorem toList_text (r : Rule) : r.text.toList = textOf r.lhs (r.rhs.map String.toList) := by
  simp [Rule.text, textOf, String.toList_intercalate]

/-- All names of categories are words. -/
theorem isWord_of_isCategory : ∀ s ∈ Symbol.categories, isWord s.toList = true := by
  decide +kernel

private theorem isWord_lhs {r : Rule} (h : r.IsProper) : isWord r.lhs.toList = true :=
  isWord_of_isCategory r.lhs (List.contains_iff_mem.1 h.1)

private theorem readBody_textOf {lhs : Symbol} (hlhs : isWord lhs.toList = true) {parts : List (List Char)}
    (hparts : ∀ part ∈ parts, part ≠ [] ∧ Solid part ∧ '|' ∉ part) (g : Grammar) (weight : Weight) :
    readBody g (textOf lhs parts) weight =
      addAlternatives lhs weight g [' ' :: [' '].intercalate parts] := by
  have hminus : '-' ∉ lhs.toList ++ [' '] := by
    simpa using not_mem_of_isWord hlhs (by decide : isWordChar '-' = false)
  have hleft : trim (lhs.toList ++ [' ']) = lhs.toList := by
    rw [trim_append_singleton (by decide), trim_of_solid (Solid.of_isWord hlhs)]
  have hbar : ∀ c ∈ ' ' :: [' '].intercalate parts, (c == '|') = false := by
    intro c hc
    rw [beq_eq_false_iff_ne]
    rintro rfl
    rcases List.mem_cons.1 hc with heq | hc
    · exact absurd heq (by decide)
    · rcases mem_intercalate hc with hgap | ⟨part, hpart, hmem⟩
      · exact absurd hgap (by decide)
      · exact (hparts part hpart).2.2 hmem
  rw [readBody, textOf, splitArrow?_append hminus]
  simp only [hleft, hlhs, if_true, String.ofList_toList, pieces_eq_singleton hbar]

private theorem word_part {s : Symbol} (h : isWord s.toList = true) :
    s.toList ≠ [] ∧ Solid s.toList ∧ '|' ∉ s.toList :=
  ⟨isWord.ne_nil h, Solid.of_isWord h, not_mem_of_isWord h (by decide)⟩

private theorem find?_words {r : Rule} (h : HasWords r) :
    (r.rhs.map String.toList).find? (!isWord ·) = none := by
  refine List.find?_eq_none.2 (List.forall_mem_map.2 fun s hs => ?_)
  simpa using h s hs

/-- A rule with a category to its left and something to its right is always taken, behind the others. -/
theorem exists_add {lhs : Symbol} {rhs : List Symbol} (hlhs : lhs.isCategory = true) (hrhs : rhs ≠ [])
    (g : Grammar) (weight : Weight) :
    ∃ next : Grammar, g.add lhs rhs (.number weight) = .ok next ∧
      next.rules = g.rules ++ [⟨lhs, rhs, weight⟩] := by
  rw [add, dif_pos hlhs, dif_neg hrhs]
  exact ⟨_, rfl, rfl⟩

/-- The text of a rule adds the rule, with the weight that is given along with it. -/
theorem readBody_text {r : Rule} (hproper : r.IsProper) (hwords : HasWords r) (g : Grammar)
    (weight : Weight) :
    ∃ next : Grammar, readBody g r.text.toList weight = (next, none) ∧
      next.rules = g.rules ++ [⟨r.lhs, r.rhs, weight⟩] := by
  have hparts : ∀ part ∈ r.rhs.map String.toList, part ≠ [] ∧ Solid part ∧ '|' ∉ part := by
    refine List.forall_mem_map.2 fun s hs => ?_
    exact word_part (hwords s hs)
  have hread : readAlternative (' ' :: [' '].intercalate (r.rhs.map String.toList)) = .ok r.rhs := by
    have hsolid : ∀ part ∈ r.rhs.map String.toList, part ≠ [] ∧ Solid part :=
      fun part hpart => ⟨(hparts part hpart).1, (hparts part hpart).2.1⟩
    rw [readAlternative_words (by simpa using hproper.2) hsolid (find?_words hwords)]
    simp
  obtain ⟨next, hadd, hrules⟩ := exists_add hproper.1 hproper.2 g weight
  refine ⟨next, ?_, hrules⟩
  rw [toList_text, readBody_textOf (isWord_lhs hproper) hparts, addAlternatives, hread]
  dsimp only
  rw [hadd]
  rfl

/-- The text of a rule begins with a letter. -/
theorem head?_text {r : Rule} (hproper : r.IsProper) :
    ∃ c, r.text.toList.head? = some c ∧ isWordChar c = true := by
  have hlhs := isWord_lhs hproper
  obtain ⟨c, rest, heq⟩ := List.exists_cons_of_ne_nil (isWord.ne_nil hlhs)
  refine ⟨c, ?_, (isWord_iff.1 hlhs).2 c (heq ▸ List.mem_cons_self)⟩
  rw [toList_text, textOf, heq]
  rfl

/-- It does not end like a weight. -/
theorem getLast?_text {r : Rule} (hproper : r.IsProper) (hwords : HasWords r) :
    ∀ c ∈ r.text.toList.getLast?, isBlank c = false ∧ c ≠ ']' := by
  have hne : r.rhs.map String.toList ≠ [] := by simpa using hproper.2
  obtain ⟨part, hpart, hlast⟩ := getLast?_intercalate [' '] hne
    (List.forall_mem_map.2 fun s hs => isWord.ne_nil (hwords s hs))
  obtain ⟨s, hs, rfl⟩ := List.mem_map.1 hpart
  have hword := hwords s hs
  intro c hc
  have hmem : c ∈ s.toList := by
    refine List.mem_of_getLast? ?_
    rw [toList_text, textOf, List.getLast?_append, List.getLast?_cons_cons, List.getLast?_cons_cons,
      List.getLast?_cons, hlast, List.getLast?_eq_some_getLast (isWord.ne_nil hword)] at hc
    rw [← hc, List.getLast?_eq_some_getLast (isWord.ne_nil hword)]
    rfl
  refine ⟨Solid.of_isWord hword c hmem, ?_⟩
  rintro rfl
  exact not_mem_of_isWord hword (by decide) hmem

/-- What begins like a word and does not end with a blank stays as it is. -/
theorem trim_eq_self_of_word {cs : List Char} (hhead : ∃ c, cs.head? = some c ∧ isWordChar c = true)
    (hlast : ∀ c ∈ cs.getLast?, isBlank c = false) : trim cs = cs := by
  obtain ⟨c, hhead, hc⟩ := hhead
  refine trim_eq_self ?_ hlast
  rw [hhead]
  rintro _ ⟨⟩
  exact isBlank_of_isWordChar hc

private theorem eq_one_of_same {w : Weight} (h : w.same Binary64.one = true) : w = Binary64.one := by
  cases w with
  | nan => cases h
  | infinite negative => cases h
  | finite negative rank =>
    have hone : (1023 * Binary64.blockSize == 0) = false := by decide
    simp only [Binary64.same, Binary64.one, Bool.and_eq_true, beq_iff_eq] at h
    obtain ⟨rfl, hsign⟩ := h
    rw [hone, Bool.or_false, beq_iff_eq] at hsign
    rw [hsign, Binary64.one]

/-- What stands behind the text of a rule whose weight is not one. -/
def bracket (w : Weight) : List Char := '[' :: (w.toChars ++ [']'])

private theorem toList_ruleLine_bare {r : Rule} (h : r.weight.same Binary64.one = true) :
    (ruleLine r).toList = r.text.toList := by
  rw [ruleLine, if_pos h]

private theorem toList_ruleLine_weighted {r : Rule} (h : r.weight.same Binary64.one = false) :
    (ruleLine r).toList = (r.text.toList ++ [' ']) ++ bracket r.weight := by
  rw [ruleLine, if_neg (by simp [h])]
  simp [bracket, Weight.text]

private theorem head?_ruleLine {r : Rule} (hproper : r.IsProper) :
    ∃ c, (ruleLine r).toList.head? = some c ∧ isWordChar c = true := by
  obtain ⟨c, htext, hc⟩ := head?_text hproper
  refine ⟨c, ?_, hc⟩
  cases hone : r.weight.same Binary64.one with
  | true => rw [toList_ruleLine_bare hone, htext]
  | false => rw [toList_ruleLine_weighted hone, List.append_assoc, List.head?_append, htext, Option.some_or]

private theorem getLast?_ruleLine {r : Rule} (hproper : r.IsProper) (hwords : HasWords r) :
    ∀ c ∈ (ruleLine r).toList.getLast?, isBlank c = false := by
  cases hone : r.weight.same Binary64.one with
  | true =>
    rw [toList_ruleLine_bare hone]
    exact fun c hc => (getLast?_text hproper hwords c hc).1
  | false =>
    have hlast : (ruleLine r).toList.getLast? = some ']' := by
      rw [toList_ruleLine_weighted hone, bracket, ← List.cons_append, ← List.append_assoc,
        List.getLast?_concat]
    rw [hlast]
    rintro _ ⟨⟩
    decide

/-- A line of a rule is read as it stands. -/
theorem trim_ruleLine {r : Rule} (hproper : r.IsProper) (hwords : HasWords r) :
    trim (ruleLine r).toList = (ruleLine r).toList ∧ isSilent (ruleLine r).toList = false := by
  refine ⟨trim_eq_self_of_word (head?_ruleLine hproper) (getLast?_ruleLine hproper hwords), ?_⟩
  obtain ⟨c, hhead, hc⟩ := head?_ruleLine hproper
  obtain ⟨rest, heq⟩ := List.head?_eq_some_iff.1 hhead
  rw [heq, isSilent, beq_eq_false_iff_ne]
  rintro rfl
  exact absurd hc (by decide)

private theorem bracket_part (w : Weight) : bracket w ≠ [] ∧ Solid (bracket w) ∧ '|' ∉ bracket w := by
  have hplain : ∀ c ∈ bracket w, isBlank c = false ∧ c ≠ '|' := by
    intro c hc
    rcases List.mem_cons.1 hc with rfl | hc
    · decide
    · rcases List.mem_append.1 hc with hc | hc
      · exact ⟨(Weight.plain_of_mem_toChars hc).1, (Weight.plain_of_mem_toChars hc).2.2⟩
      · obtain rfl := List.mem_singleton.1 hc
        decide
  exact ⟨List.cons_ne_nil _ _, fun c hc => (hplain c hc).1, fun h => (hplain _ h).2 rfl⟩

private theorem splitWeight?_ruleLine {r : Rule} (h : r.weight.same Binary64.one = false) :
    splitWeight? (ruleLine r).toList =
      (Decimal.readWritten? r.weight.toChars).map (trim (r.text.toList ++ [' ']), ·) := by
  rw [toList_ruleLine_weighted h]
  exact splitWeight?_brackets _ fun hmem => (Weight.plain_of_mem_toChars hmem).2.1 rfl

/-- A line of a rule with a finite weight adds that rule. -/
theorem readLine_ruleLine {r : Rule} (hproper : r.IsProper) (hwords : HasWords r)
    (hfinite : r.weight.isFinite = true) (g : Grammar) :
    ∃ next : Grammar, readLine g (ruleLine r).toList = (next, none) ∧ next.rules = g.rules ++ [r] := by
  obtain ⟨next, hread, hrules⟩ := readBody_text hproper hwords g r.weight
  refine ⟨next, ?_, hrules⟩
  cases hone : r.weight.same Binary64.one with
  | true =>
    rw [toList_ruleLine_bare hone, readLine_bare (splitWeight?_eq_none (getLast?_text hproper hwords)),
      ← eq_one_of_same hone, hread]
  | false =>
    obtain ⟨written, hwritten, hweight⟩ : ∃ written, Decimal.readWritten? r.weight.toChars = some written ∧
        written.toBinary64 = r.weight := by
      cases hw : r.weight with
      | finite negative rank => exact Weight.exists_readWritten? negative rank
      | infinite negative => rw [hw] at hfinite; cases hfinite
      | nan => rw [hw] at hfinite; cases hfinite
    have htrim : trim (r.text.toList ++ [' ']) = r.text.toList := by
      rw [trim_append_singleton (by decide)]
      exact trim_eq_self_of_word (head?_text hproper) fun c hc => (getLast?_text hproper hwords c hc).1
    rw [readLine_weighted (by rw [splitWeight?_ruleLine hone, hwritten, htrim]; rfl), hweight, hread]

/-- A line of a rule whose weight is not finite has a fault: the name of the weight is no symbol. -/
theorem readLine_ruleLine_of_not_finite {r : Rule} (hproper : r.IsProper) (hwords : HasWords r)
    (hfinite : r.weight.isFinite = false) (g : Grammar) :
    readLine g (ruleLine r).toList =
      (g, some (.badSymbol (String.ofList (bracket r.weight)))) := by
  have hone : r.weight.same Binary64.one = false := by
    rw [← Bool.not_eq_true]
    intro hsame
    rw [eq_one_of_same hsame] at hfinite
    cases hfinite
  have hne : r.rhs.map String.toList ≠ [] := by simpa using hproper.2
  have hparts : ∀ part ∈ r.rhs.map String.toList ++ [bracket r.weight],
      part ≠ [] ∧ Solid part ∧ '|' ∉ part := by
    refine List.forall_mem_append.2 ⟨List.forall_mem_map.2 fun s hs => word_part (hwords s hs), ?_⟩
    simpa using bracket_part r.weight
  have hline : (ruleLine r).toList = textOf r.lhs (r.rhs.map String.toList ++ [bracket r.weight]) := by
    rw [toList_ruleLine_weighted hone, toList_text, textOf, textOf, intercalate_append_singleton hne]
    simp
  have hbad : (r.rhs.map String.toList ++ [bracket r.weight]).find? (!isWord ·) =
      some (bracket r.weight) := by
    have hbracket : isWord (bracket r.weight) = false := by
      have hopen : isWordChar '[' = false := by decide
      simp [isWord, bracket, hopen]
    rw [List.find?_append, find?_words hwords, Option.none_or, List.find?_cons_of_pos (by simp [hbracket])]
  have hsplit := splitWeight?_ruleLine hone
  rw [Weight.readWritten?_eq_none hfinite, Option.map_none] at hsplit
  rw [readLine_bare hsplit, hline, readBody_textOf (isWord_lhs hproper) hparts, addAlternatives,
    readAlternative_bad (by simp) (fun part hpart => ⟨(hparts part hpart).1, (hparts part hpart).2.1⟩) hbad]

private theorem mem_linesAfter {r : Rule} {last : Symbol} {rs : List Rule} (h : r ∈ rs) :
    ruleLine r ∈ linesAfter last rs := by
  induction rs generalizing last with
  | nil => cases h
  | cons first rest ih =>
    rw [linesAfter]
    refine List.mem_append_right _ ?_
    rcases List.mem_cons.1 h with rfl | hrest
    · exact List.mem_cons_self
    · exact List.mem_cons_of_mem _ (ih hrest)

private theorem eq_ruleLine_of_mem_linesAfter {l : String} {last : Symbol} {rs : List Rule}
    (h : l ∈ linesAfter last rs) : l = "" ∨ ∃ r ∈ rs, l = ruleLine r := by
  induction rs generalizing last with
  | nil => cases h
  | cons first rest ih =>
    rw [linesAfter] at h
    rcases List.mem_append.1 h with hblank | hline
    · left
      split at hblank
      · cases hblank
      · exact List.mem_singleton.1 hblank
    · rcases List.mem_cons.1 hline with rfl | hrest
      · exact Or.inr ⟨first, List.mem_cons_self, rfl⟩
      · rcases ih hrest with rfl | ⟨r, hr, rfl⟩
        · exact Or.inl rfl
        · exact Or.inr ⟨r, List.mem_cons_of_mem _ hr, rfl⟩

/-- The text of a grammar is that of the lines after a first left-hand side. -/
theorem exists_toText (g : Grammar) : ∃ last, g.toText = "\n".intercalate (linesAfter last g.rules) := by
  rw [toText]
  cases g.rules with
  | nil => exact ⟨"", rfl⟩
  | cons r rest => exact ⟨r.lhs, by simp [linesAfter]⟩

private theorem newline_not_mem_ruleLine {r : Rule} (hproper : r.IsProper) (hwords : HasWords r) :
    '\n' ∉ (ruleLine r).toList := by
  have htext : '\n' ∉ r.text.toList := by
    rw [toList_text, textOf]
    have hlhs : '\n' ∉ r.lhs.toList := not_mem_of_isWord (isWord_lhs hproper) (by decide)
    have hrhs : '\n' ∉ [' '].intercalate (r.rhs.map String.toList) := by
      intro hmem
      rcases mem_intercalate hmem with hgap | ⟨part, hpart, hmem⟩
      · exact absurd hgap (by decide)
      · obtain ⟨s, hs, rfl⟩ := List.mem_map.1 hpart
        exact not_mem_of_isWord (hwords s hs) (by decide) hmem
    simp [hlhs, hrhs]
  cases hone : r.weight.same Binary64.one with
  | true => rwa [toList_ruleLine_bare hone]
  | false =>
    have hbracket := (bracket_part r.weight).2.1.not_mem (c := '\n') (by decide)
    rw [toList_ruleLine_weighted hone]
    simp [htext, hbracket]

/-- The lines of rules with finite weights add these rules. -/
theorem readLinesFrom_linesAfter {rs : List Rule} (hproper : ∀ r ∈ rs, r.IsProper)
    (hwords : ∀ r ∈ rs, HasWords r) (hfinite : ∀ r ∈ rs, r.weight.isFinite = true) (number : Nat)
    (g : Grammar) (last : Symbol) :
    ∃ next : Grammar, next.rules = g.rules ++ rs ∧
      readLinesFrom readLine number g ((linesAfter last rs).map String.toList) = (next, none) := by
  induction rs generalizing number g last with
  | nil => exact ⟨g, by rw [List.append_nil], rfl⟩
  | cons r rest ih =>
    obtain ⟨hproperr, hproper⟩ := List.forall_mem_cons.1 hproper
    obtain ⟨hwordsr, hwords⟩ := List.forall_mem_cons.1 hwords
    obtain ⟨hfiniter, hfinite⟩ := List.forall_mem_cons.1 hfinite
    obtain ⟨next, hread, hrules⟩ := readLine_ruleLine hproperr hwordsr hfiniter g
    obtain ⟨htrim, hspeaks⟩ := trim_ruleLine hproperr hwordsr
    have hline (number : Nat) (ls : List (List Char)) :
        readLinesFrom readLine number g ((ruleLine r).toList :: ls) =
          readLinesFrom readLine (number + 1) next ls :=
      readLinesFrom_cons (by rw [htrim, hspeaks]) (by rw [htrim, hread]) number ls
    rw [linesAfter]
    split
    · obtain ⟨final, hfinal, hrest⟩ := ih hproper hwords hfinite (number + 1) next r.lhs
      refine ⟨final, by rw [hfinal, hrules, List.append_assoc, List.singleton_append], ?_⟩
      rw [List.nil_append, List.map_cons, hline, hrest]
    · obtain ⟨final, hfinal, hrest⟩ := ih hproper hwords hfinite (number + 1 + 1) next r.lhs
      refine ⟨final, by rw [hfinal, hrules, List.append_assoc, List.singleton_append], ?_⟩
      rw [List.singleton_append, List.map_cons, List.map_cons, readLinesFrom_silent rfl, hline, hrest]

/-- A text is a grammar if its lines are read one after another without a fault. -/
theorem ofText_eq_ok_iff {text : String} {g : Grammar} :
    ofText text = .ok g ↔ readText readLine empty text = (g, none) := by
  rw [ofText, readAll]
  obtain ⟨found, fault⟩ := readText readLine empty text
  cases fault <;> simp

/-- A written grammar is read back if its lines are: the first line is read like the others. -/
theorem ofText_toText_iff_lines {g : Grammar} (hwords : ∀ r ∈ g.rules, HasWords r) (g' : Grammar) :
    ∃ last, ofText g.toText = .ok g' ↔
      readLinesFrom readLine 1 empty ((linesAfter last g.rules).map String.toList) = (g', none) := by
  obtain ⟨last, htext⟩ := exists_toText g
  refine ⟨last, ?_⟩
  rw [ofText_eq_ok_iff, htext, readText_intercalate_iff]
  intro l hl
  rcases eq_ruleLine_of_mem_linesAfter hl with rfl | ⟨r, hr, rfl⟩
  · decide
  · exact newline_not_mem_ruleLine (g.proper r hr) (hwords r hr)

private theorem reads_back {g : Grammar} (hwords : ∀ r ∈ g.rules, HasWords r)
    (hfinite : ∀ r ∈ g.rules, r.weight.isFinite = true) : ofText g.toText = .ok g := by
  obtain ⟨last, hiff⟩ := ofText_toText_iff_lines hwords g
  obtain ⟨next, hrules, hread⟩ := readLinesFrom_linesAfter g.proper hwords hfinite 1 empty last
  obtain rfl : next = g := ext (by rw [hrules, empty, List.nil_append])
  exact hiff.2 hread

/-- Where the text of a grammar is accepted at all, the weights are finite. -/
theorem isFinite_of_reads {g g' : Grammar} (hwords : ∀ r ∈ g.rules, HasWords r)
    (h : ofText g.toText = .ok g') : ∀ r ∈ g.rules, r.weight.isFinite = true := by
  intro r hr
  obtain ⟨last, hiff⟩ := ofText_toText_iff_lines hwords g'
  obtain ⟨htrim, hspeaks⟩ := trim_ruleLine (g.proper r hr) (hwords r hr)
  obtain ⟨before, after, hread⟩ := readLinesFrom_none_mem (hiff.1 h)
    (List.mem_map_of_mem (mem_linesAfter hr)) (by rw [htrim, hspeaks])
  rw [← Bool.not_eq_false]
  intro hinfinite
  rw [htrim, readLine_ruleLine_of_not_finite (g.proper r hr) (hwords r hr) hinfinite] at hread
  cases hread

private theorem isWord_of_readAlternative {part : List Char} {rhs : List Symbol}
    (h : readAlternative part = .ok rhs) : ∀ s ∈ rhs, isWord s.toList = true := by
  rw [readAlternative] at h
  split at h
  · cases h
  · split at h
    · cases h
    · next hgood =>
      cases h
      refine List.forall_mem_map.2 fun item hitem => ?_
      simpa using List.find?_eq_none.1 hgood item hitem

/-- A rule that is taken stands behind the others. -/
theorem rules_of_add {g next : Grammar} {lhs : Symbol} {rhs : List Symbol} {weight : Weight}
    (h : g.add lhs rhs (.number weight) = .ok next) : next.rules = g.rules ++ [⟨lhs, rhs, weight⟩] := by
  rw [add] at h
  split at h
  · split at h
    · cases h
    · cases h
      rfl
  · cases h

private theorem hasWords_addAlternatives {lhs : Symbol} {weight : Weight} {g : Grammar}
    (h : ∀ r ∈ g.rules, HasWords r) (parts : List (List Char)) :
    ∀ r ∈ (addAlternatives lhs weight g parts).1.rules, HasWords r := by
  induction parts generalizing g with
  | nil => exact h
  | cons part rest ih =>
    rw [addAlternatives]
    split
    · exact h
    · next rhs hrhs =>
      split
      · exact h
      · next next hnext =>
        refine ih ?_
        rw [rules_of_add hnext]
        refine List.forall_mem_append.2 ⟨h, fun r hr => ?_⟩
        obtain rfl := List.mem_singleton.1 hr
        exact isWord_of_readAlternative hrhs

private theorem hasWords_readLine {g : Grammar} (h : ∀ r ∈ g.rules, HasWords r) (line : List Char) :
    ∀ r ∈ (readLine g line).1.rules, HasWords r := by
  have hbody (body : List Char) (weight : Weight) :
      ∀ r ∈ (readBody g body weight).1.rules, HasWords r := by
    rw [readBody]
    split
    · exact h
    · split
      · exact hasWords_addAlternatives h _
      · exact h
  cases hsplit : splitWeight? line with
  | none =>
    rw [readLine_bare hsplit]
    exact hbody _ _
  | some parts =>
    rw [readLine_weighted hsplit]
    exact hbody _ _

/-- The symbols of a grammar that was given as text are words. -/
theorem hasWords_of_ofText {text : String} {g : Grammar} (h : ofText text = .ok g) :
    ∀ r ∈ g.rules, HasWords r := by
  have hempty : ∀ r ∈ empty.rules, HasWords r := fun r hr => by cases hr
  have hwords := readText_induction (P := fun g : Grammar => ∀ r ∈ g.rules, HasWords r) text hempty
    fun g raw _ hg => hasWords_readLine hg (trim raw)
  rwa [ofText_eq_ok_iff.1 h] at hwords

/-- A grammar whose right-hand sides are words and whose weights are finite is read back from its
text. -/
theorem ofText_toText (g : Grammar) (hwords : ∀ r ∈ g.rules, ∀ s ∈ r.rhs, isWord s.toList = true)
    (hfinite : ∀ r ∈ g.rules, r.weight.isFinite = true) : ofText g.toText = .ok g :=
  reads_back hwords hfinite

/-- Two categories in turn, and weights of every layout: none, a negative zero, the least magnitude,
and one that is written with an exponent. -/
def layouts : Grammar where
  rules := [⟨"S", ["NP", "VP"], Binary64.one⟩, ⟨"S", ["NP"], .finite true ⟨0, by decide⟩⟩,
    ⟨"NP", ["N_2"], .finite false ⟨1, by decide⟩⟩,
    ⟨"S", ["ΩΩ", "x"], .finite true ⟨1100 * Binary64.blockSize + 12345, by decide⟩⟩]
  proper := by
    unfold Rule.IsProper
    decide

/-- Rules of two categories in turn, with the weight of one, a negative zero, the least number above zero
and a long negative fraction. -/
theorem ofText_toText_layouts :
    (∀ r ∈ layouts.rules, ∀ s ∈ r.rhs, isWord s.toList = true) ∧
      (∀ r ∈ layouts.rules, r.weight.isFinite = true) ∧ ofText layouts.toText = .ok layouts :=
  ⟨by decide +kernel, by decide, ofText_toText layouts (by decide +kernel) (by decide)⟩

/-- A grammar that was given as text is read back from its own text exactly when each weight came
out finite; otherwise its text is no grammar at all. -/
theorem ofText_toText_iff {text : String} {g : Grammar} (h : ofText text = .ok g) :
    (ofText g.toText = .ok g ↔ ∀ r ∈ g.rules, r.weight.isFinite = true) ∧
      ((∃ g', ofText g.toText = .ok g') ↔ ∀ r ∈ g.rules, r.weight.isFinite = true) := by
  have hwords := hasWords_of_ofText h
  have hreads : ∀ g', ofText g.toText = .ok g' → ∀ r ∈ g.rules, r.weight.isFinite = true :=
    fun _ hread => isFinite_of_reads hwords hread
  exact ⟨⟨hreads g, reads_back hwords⟩,
    ⟨fun ⟨g', hread⟩ => hreads g' hread, fun hfinite => ⟨g, reads_back hwords hfinite⟩⟩⟩

/-- One rule, `S -> N`, with a weight. -/
def oneRule (w : Weight) : Grammar where
  rules := [⟨"S", ["N"], w⟩]
  proper := by
    intro r hr
    obtain rfl := List.mem_singleton.1 hr
    exact ⟨rfl, List.cons_ne_nil _ _⟩

/-- A quarter. -/
def quarter : Weight := .finite false ⟨1021 * Binary64.blockSize, by decide⟩

/-- A weight in the notation with an exponent, which is written in another one. -/
theorem ofText_toText_iff_quarter : ofText "S -> N [2.5e-1]" = .ok (oneRule quarter) ∧
    (ofText (oneRule quarter).toText = .ok (oneRule quarter) ↔
      ∀ r ∈ (oneRule quarter).rules, r.weight.isFinite = true) ∧
    ((∃ g', ofText (oneRule quarter).toText = .ok g') ↔
      ∀ r ∈ (oneRule quarter).rules, r.weight.isFinite = true) := by
  have hread : ofText "S -> N [2.5e-1]" = .ok (oneRule quarter) := by decide +kernel
  exact ⟨hread, ofText_toText_iff hread⟩

/-- A weight beyond all finite numbers is accepted as an infinity, whose name is then refused. -/
theorem ofText_toText_overflow : ofText "S -> N [1e999]" = .ok (oneRule (.infinite false)) ∧
    ofText (oneRule (.infinite false)).toText =
      .error ⟨1, "S -> N [inf]", .badSymbol "[inf]"⟩ := by
  decide +kernel

end Earley.Grammar
