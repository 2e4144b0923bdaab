import Earley.Text.Blank
import Earley.Text.Word

namespace Earley.Text

/-- A number that is in ranges is in one of them. -/
theorem Ranges.exists_of_contains {r : Ranges} {n : Nat} (h : r.contains n = true) :
    ∃ range ∈ r, range.1 ≤ n ∧ n ≤ range.2 := by
  induction r with
  | nil => cases h
  | cons range rest ih =>
    rw [Ranges.contains] at h
    split at h
    · cases h
    · next hlow =>
      rcases Bool.or_eq_true_iff.1 h with hhigh | hrest
      · exact ⟨range, List.mem_cons_self, Nat.le_of_not_lt hlow, of_decide_eq_true hhigh⟩
      · obtain ⟨found, hmem, hfound⟩ := ih hrest
        exact ⟨found, List.mem_cons_of_mem _ hmem, hfound⟩

private theorem alphanumerics_apart : ∀ blank ∈ blanks, ∀ range ∈ alphanumerics,
    blank.2 < range.1 ∨ range.2 < blank.1 := by
  decide +kernel

/-- No word character is white space. -/
theorem isBlank_of_isWordChar {c : Char} (h : isWordChar c = true) : isBlank c = false := by
  rcases Bool.or_eq_true_iff.1 h with hline | hletter
  · obtain rfl := eq_of_beq hline
    decide
  · rw [← Bool.not_eq_true]
    intro hblank
    obtain ⟨blank, hmem, hlow, hhigh⟩ := Ranges.exists_of_contains hblank
    obtain ⟨range, hmem', hlow', hhigh'⟩ := Ranges.exists_of_contains hletter
    rcases alphanumerics_apart blank hmem range hmem' with hlt | hlt <;> omega

/-- A text without white space. -/
def Solid (cs : List Char) : Prop := ∀ c ∈ cs, isBlank c = false

-- Not by `inferInstance`, which may find the instance that tries all characters there are.
instance (cs : List Char) : Decidable (Solid cs) := List.decidableBAll (isBlank · = false) cs

namespace Solid

variable {cs ds : List Char}

theorem append (hcs : Solid cs) (hds : Solid ds) : Solid (cs ++ ds) :=
  List.forall_mem_append.2 ⟨hcs, hds⟩

/-- A solid text has no blanks in it. -/
theorem not_mem (h : Solid cs) {c : Char} (hc : isBlank c = true) : c ∉ cs := by
  intro hmem
  rw [h c hmem] at hc
  cases hc

/-- Words are solid. -/
theorem of_isWord (h : isWord cs = true) : Solid cs := by
  intro c hc
  exact isBlank_of_isWordChar (List.all_eq_true.1 (Bool.and_eq_true_iff.1 h).2 c hc)

end Solid

/-- A word is made of word characters, one at least. -/
theorem isWord_iff {cs : List Char} :
    isWord cs = true ↔ cs ≠ [] ∧ ∀ c ∈ cs, isWordChar c = true := by
  simp [isWord]

/-- A word is not empty. -/
theorem isWord.ne_nil {cs : List Char} (h : isWord cs = true) : cs ≠ [] := (isWord_iff.1 h).1

/-- A word does not hold a character that is no word character. -/
theorem not_mem_of_isWord {cs : List Char} {c : Char} (h : isWord cs = true)
    (hc : isWordChar c = false) : c ∉ cs := by
  intro hmem
  rw [(isWord_iff.1 h).2 c hmem] at hc
  cases hc

section

variable {p : Char → Bool} {cs ds : List Char}

/-- What is taken from a text ends where the first part does, if the second part begins with something
else. -/
theorem takeWhile_append_stop (hcs : ∀ c ∈ cs, p c = true)
    (hds : ∀ d ∈ ds.head?, p d = false) : (cs ++ ds).takeWhile p = cs := by
  rw [List.takeWhile_append_of_pos hcs]
  cases ds with
  | nil => rw [List.takeWhile_nil, List.append_nil]
  | cons d rest => rw [List.takeWhile_cons_of_neg (by simp [hds d rfl]), List.append_nil]

/-- What is dropped from a text is its first part, if the second part begins with something else. -/
theorem dropWhile_append_stop (hcs : ∀ c ∈ cs, p c = true)
    (hds : ∀ d ∈ ds.head?, p d = false) : (cs ++ ds).dropWhile p = ds := by
  rw [List.dropWhile_append_of_pos hcs]
  cases ds with
  | nil => rfl
  | cons d rest => rw [List.dropWhile_cons_of_neg (by simp [hds d rfl])]

end

variable {cut : Char → Bool}

/-- Cutting a text to pieces is what the library calls splitting a list. -/
theorem pieces_eq_splitOnP (cut : Char → Bool) (cs : List Char) : pieces cut cs = cs.splitOnP cut := by
  induction cs with
  | nil => rfl
  | cons c rest ih =>
    rw [pieces, List.splitOnP_cons_eq_if_modifyHead, ih]
    split
    · rfl
    · obtain ⟨piece, more, heq⟩ := List.exists_cons_of_ne_nil (List.splitOnP_ne_nil cut rest)
      rw [heq, List.modifyHead_cons]

/-- There is one piece at least, be it empty. -/
theorem pieces_ne_nil (cut : Char → Bool) (cs : List Char) : pieces cut cs ≠ [] := by
  rw [pieces_eq_splitOnP]
  exact List.splitOnP_ne_nil cut cs

/-- Where a text is cut, the pieces before and behind the cut do not depend on each other. -/
theorem pieces_append_cons (cs ds : List Char) {c : Char} (hc : cut c = true) :
    pieces cut (cs ++ c :: ds) = pieces cut cs ++ pieces cut ds := by
  simp only [pieces_eq_splitOnP, List.splitOnP_append_cons cs ds hc]

/-- A text in which nothing is cut is one piece. -/
theorem pieces_eq_singleton {cs : List Char} (h : ∀ c ∈ cs, cut c = false) : pieces cut cs = [cs] := by
  rw [pieces_eq_splitOnP]
  exact List.splitOnP_eq_singleton h

/-- A character that is no cut belongs to the first piece. -/
theorem pieces_cons (cut : Char → Bool) {c : Char} (hc : cut c = false) (cs : List Char) :
    ∃ piece more, pieces cut cs = piece :: more ∧ pieces cut (c :: cs) = (c :: piece) :: more := by
  obtain ⟨piece, more, heq⟩ := List.exists_cons_of_ne_nil (pieces_ne_nil cut cs)
  exact ⟨piece, more, heq, by simp [pieces, hc, heq]⟩

/-- So does one at the end to the last piece. -/
theorem pieces_append_singleton (cut : Char → Bool) {c : Char} (hc : cut c = false) (cs : List Char) :
    ∃ before last, pieces cut cs = before ++ [last] ∧
      pieces cut (cs ++ [c]) = before ++ [last ++ [c]] := by
  induction cs with
  | nil => exact ⟨[], [], rfl, by simp [pieces, hc]⟩
  | cons d rest ih =>
    obtain ⟨before, last, heq, heq'⟩ := ih
    by_cases hd : cut d = true
    · exact ⟨[] :: before, last, by simp [pieces, hd, heq], by simp [pieces, hd, heq']⟩
    · cases before with
      | nil => exact ⟨[], d :: last, by simp_all [pieces], by simp_all [pieces]⟩
      | cons piece more =>
        exact ⟨(d :: piece) :: more, last, by simp_all [pieces], by simp_all [pieces]⟩

/-- Pieces hold characters of the text, and no cuts. -/
theorem mem_of_mem_pieces {cs piece : List Char} (h : piece ∈ pieces cut cs) :
    ∀ c ∈ piece, c ∈ cs ∧ cut c = false := by
  induction cs generalizing piece with
  | nil =>
    obtain rfl := List.mem_singleton.1 h
    simp
  | cons d rest ih =>
    by_cases hd : cut d = true
    · rw [pieces, if_pos hd] at h
      rcases List.mem_cons.1 h with rfl | hrest
      · simp
      · exact fun c hc => ⟨List.mem_cons_of_mem _ (ih hrest c hc).1, (ih hrest c hc).2⟩
    · obtain ⟨first, more, heq, heq'⟩ := pieces_cons cut (by simpa using hd) rest
      rw [heq'] at h
      rcases List.mem_cons.1 h with rfl | hmore
      · intro c hc
        rcases List.mem_cons.1 hc with rfl | hc
        · exact ⟨List.mem_cons_self, by simpa using hd⟩
        · have hfirst := ih (heq ▸ List.mem_cons_self) c hc
          exact ⟨List.mem_cons_of_mem _ hfirst.1, hfirst.2⟩
      · intro c hc
        have hin := ih (heq ▸ List.mem_cons_of_mem _ hmore) c hc
        exact ⟨List.mem_cons_of_mem _ hin.1, hin.2⟩

/-- A character that is no cut lies in a piece. -/
theorem exists_mem_pieces {cs : List Char} {c : Char} (h : c ∈ cs) (hc : cut c = false) :
    ∃ piece ∈ pieces cut cs, c ∈ piece := by
  induction cs with
  | nil => cases h
  | cons d rest ih =>
    by_cases hd : cut d = true
    · have hrest : c ∈ rest := by
        refine (List.mem_cons.1 h).resolve_left ?_
        rintro rfl
        rw [hc] at hd
        cases hd
      obtain ⟨piece, hpiece, hmem⟩ := ih hrest
      exact ⟨piece, by simp [pieces, hd, hpiece], hmem⟩
    · obtain ⟨first, more, heq, heq'⟩ := pieces_cons cut (by simpa using hd) rest
      rw [heq] at ih
      rw [heq']
      rcases List.mem_cons.1 h with rfl | hrest
      · exact ⟨_, List.mem_cons_self, List.mem_cons_self⟩
      · obtain ⟨piece, hpiece, hmem⟩ := ih hrest
        rcases List.mem_cons.1 hpiece with rfl | hmore
        · exact ⟨_, List.mem_cons_self, List.mem_cons_of_mem _ hmem⟩
        · exact ⟨piece, List.mem_cons_of_mem _ hmore, hmem⟩

/-- All characters of texts that are put together with gaps come from a gap or from one of the texts. -/
theorem mem_intercalate {c : Char} {gap : List Char} {parts : List (List Char)}
    (h : c ∈ gap.intercalate parts) : c ∈ gap ∨ ∃ part ∈ parts, c ∈ part := by
  induction parts with
  | nil => cases h
  | cons part rest ih =>
    cases rest with
    | nil => exact Or.inr ⟨part, List.mem_cons_self, by rwa [List.intercalate_singleton] at h⟩
    | cons next more =>
      rw [List.intercalate_cons_cons, List.mem_append, List.mem_append] at h
      rcases h with (hpart | hgap) | hrest
      · exact Or.inr ⟨part, List.mem_cons_self, hpart⟩
      · exact Or.inl hgap
      · rcases ih hrest with hgap | ⟨found, hmem, hc⟩
        · exact Or.inl hgap
        · exact Or.inr ⟨found, List.mem_cons_of_mem _ hmem, hc⟩

/-- One more text is put behind the others, with a gap before it. -/
theorem intercalate_append_singleton {parts : List (List Char)} (hne : parts ≠ []) (gap last : List Char) :
    gap.intercalate (parts ++ [last]) = gap.intercalate parts ++ gap ++ last := by
  induction parts with
  | nil => exact absurd rfl hne
  | cons part rest ih =>
    cases rest with
    | nil => simp
    | cons next more =>
      rw [List.cons_append, List.intercalate_cons_of_ne_nil (by simp), ih (by simp),
        List.intercalate_cons_cons]
      simp only [List.append_assoc]

/-- A joined text ends as its last part does. -/
theorem getLast?_intercalate (gap : List Char) {parts : List (List Char)} (hne : parts ≠ [])
    (h : ∀ part ∈ parts, part ≠ []) :
    ∃ part ∈ parts, (gap.intercalate parts).getLast? = part.getLast? := by
  induction parts with
  | nil => exact absurd rfl hne
  | cons part rest ih =>
    cases rest with
    | nil => exact ⟨part, List.mem_cons_self, by rw [List.intercalate_singleton]⟩
    | cons next more =>
      obtain ⟨last, hlast, heq⟩ := ih (by simp) fun p hp => h p (List.mem_cons_of_mem _ hp)
      refine ⟨last, List.mem_cons_of_mem _ hlast, ?_⟩
      have hsome : last.getLast? = some (last.getLast (h last (List.mem_cons_of_mem _ hlast))) :=
        List.getLast?_eq_some_getLast _
      rw [List.intercalate_cons_cons, List.getLast?_append, heq, hsome, Option.some_or]

/-- Lines can be read back from a text made of them. -/
theorem lines_intercalate {ls : List (List Char)} (h : ∀ l ∈ ls, '\n' ∉ l) (hne : ls ≠ []) :
    lines (['\n'].intercalate ls) = ls := by
  rw [lines, pieces_eq_splitOnP]
  exact List.splitOn_intercalate '\n' h hne

/-- Items are cut at each blank. -/
theorem items_append_cons (cs ds : List Char) {c : Char} (hc : isBlank c = true) :
    items (cs ++ c :: ds) = items cs ++ items ds := by
  rw [items, pieces_append_cons cs ds hc, List.filter_append]
  rfl

/-- A blank at the front does not change the items of a text. -/
theorem items_cons {c : Char} (hc : isBlank c = true) (cs : List Char) :
    items (c :: cs) = items cs := by
  simpa [items, pieces] using items_append_cons [] cs hc

/-- A character that is no blank begins the first item. -/
theorem items_cons_of_solid {c : Char} (hc : isBlank c = false) (cs : List Char) :
    ∃ item others, items (c :: cs) = (c :: item) :: others := by
  obtain ⟨piece, more, -, hpieces⟩ := pieces_cons isBlank hc cs
  exact ⟨piece, more.filter (!·.isEmpty), by rw [items, hpieces]; rfl⟩

private theorem items_eq_singleton {cs : List Char} (h : Solid cs) (hne : cs ≠ []) : items cs = [cs] := by
  rw [items, pieces_eq_singleton h]
  simp [hne]

/-- Items are not empty, have no blanks in them and are made of the text's characters. -/
theorem mem_items {cs item : List Char} (h : item ∈ items cs) :
    item ≠ [] ∧ Solid item ∧ ∀ c ∈ item, c ∈ cs := by
  obtain ⟨hpiece, hne⟩ := List.mem_filter.1 h
  have hmem := mem_of_mem_pieces hpiece
  exact ⟨by simpa using hne, fun c hc => (hmem c hc).2, fun c hc => (hmem c hc).1⟩

/-- Every character that is no blank lies in an item. -/
theorem exists_mem_items {cs : List Char} {c : Char} (h : c ∈ cs) (hc : isBlank c = false) :
    ∃ item ∈ items cs, c ∈ item := by
  obtain ⟨piece, hpiece, hmem⟩ := exists_mem_pieces h hc
  exact ⟨piece, List.mem_filter.2 ⟨hpiece, by simpa using List.ne_nil_of_mem hmem⟩, hmem⟩

/-- Items can be read back from a text made of them. -/
theorem items_intercalate {parts : List (List Char)} (h : ∀ part ∈ parts, part ≠ [] ∧ Solid part) :
    items ([' '].intercalate parts) = parts := by
  induction parts with
  | nil => rfl
  | cons part rest ih =>
    obtain ⟨⟨hne, hsolid⟩, hrest⟩ := List.forall_mem_cons.1 h
    cases rest with
    | nil => simpa using items_eq_singleton hsolid hne
    | cons next more =>
      have hblank : isBlank ' ' = true := by decide
      rw [List.intercalate_cons_cons, List.append_assoc, List.singleton_append,
        items_append_cons part _ hblank, items_eq_singleton hsolid hne, ih hrest, List.singleton_append]

/-- A joined text, with the gaps counted to the parts behind them. -/
theorem intercalate_cons_eq_flatMap (gap part : List Char) (parts : List (List Char)) :
    gap.intercalate (part :: parts) = part ++ parts.flatMap (gap ++ ·) := by
  induction parts generalizing part with
  | nil => simp
  | cons next more ih =>
    rw [List.intercalate_cons_cons, ih, List.flatMap_cons]
    simp only [List.append_assoc]

/-- Solid texts that are put together with blanks are the items of the whole. -/
theorem items_flatMap {parts : List (List Char)} (h : ∀ part ∈ parts, part ≠ [] ∧ Solid part) :
    items (parts.flatMap ([' '] ++ ·)) = parts := by
  cases parts with
  | nil => rfl
  | cons part rest =>
    rw [List.flatMap_cons, List.append_assoc, ← intercalate_cons_eq_flatMap, List.singleton_append,
      items_cons (by decide), items_intercalate h]

/-- A blank at the front is trimmed away. -/
theorem trimLeft_cons {c : Char} (hc : isBlank c = true) (cs : List Char) :
    trimLeft (c :: cs) = trimLeft cs := by
  simp [trimLeft, hc]

/-- Nothing is trimmed from the front where no blank stands. -/
theorem trimLeft_eq_self {cs : List Char} (h : ∀ c ∈ cs.head?, isBlank c = false) :
    trimLeft cs = cs := by
  cases cs with
  | nil => rfl
  | cons c rest => simp [trimLeft, h c rfl]

/-- The items stay the same when the front is trimmed. -/
theorem items_trimLeft (cs : List Char) : items (trimLeft cs) = items cs := by
  induction cs with
  | nil => rfl
  | cons c rest ih =>
    by_cases hc : isBlank c = true
    · rw [trimLeft_cons hc, ih, items_cons hc]
    · rw [trimLeft_eq_self]
      rintro _ ⟨⟩
      exact Bool.not_eq_true _ ▸ hc

/-- Trimming stops at a character that is no blank. -/
theorem isBlank_of_mem_head?_trimLeft {cs : List Char} {c : Char} (h : c ∈ (trimLeft cs).head?) :
    isBlank c = false := by
  have hstop := List.head?_dropWhile_not isBlank cs
  rwa [← trimLeft, Option.mem_def.1 h] at hstop

/-- A blank at the end is trimmed away. -/
theorem trimRight_append_singleton {c : Char} (hc : isBlank c = true) (cs : List Char) :
    trimRight (cs ++ [c]) = trimRight cs := by
  simp [trimRight, hc]

/-- A blank at the end is trimmed away. -/
theorem trim_append_singleton {c : Char} (hc : isBlank c = true) (cs : List Char) :
    trim (cs ++ [c]) = trim cs := by
  rw [trim, trim, trimLeft, List.dropWhile_append]
  split
  · next hempty =>
    have hnil : trimLeft cs = [] := by simpa [trimLeft] using hempty
    rw [hnil, List.dropWhile_cons_of_pos hc]
    rfl
  · exact trimRight_append_singleton hc (trimLeft cs)

/-- Nothing is trimmed from the end where no blank stands. -/
theorem trimRight_eq_self {cs : List Char} (h : ∀ c ∈ cs.getLast?, isBlank c = false) :
    trimRight cs = cs := by
  have hrev : trimLeft cs.reverse = cs.reverse := trimLeft_eq_self (by simpa using h)
  rw [trimLeft] at hrev
  rw [trimRight, hrev, List.reverse_reverse]

/-- A text whose first and last characters are no blanks stays as it is. -/
theorem trim_eq_self {cs : List Char} (hhead : ∀ c ∈ cs.head?, isBlank c = false)
    (hlast : ∀ c ∈ cs.getLast?, isBlank c = false) : trim cs = cs := by
  rw [trim, trimLeft_eq_self hhead, trimRight_eq_self hlast]

/-- Nothing is trimmed from a solid text. -/
theorem trim_of_solid {cs : List Char} (h : Solid cs) : trim cs = cs :=
  trim_eq_self (fun c hc => h c (List.mem_of_head? hc)) (fun c hc => h c (List.mem_of_getLast? hc))

end Earley.Text
