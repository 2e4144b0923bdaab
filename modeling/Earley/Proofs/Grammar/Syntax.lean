import Earley.Proofs.Decimal.Form
import Earley.Proofs.Grammar.Text
import Mathlib.Data.List.TakeWhile

namespace Earley.Grammar

open Earley.Text

/-- A weight in brackets, and the blanks behind it. -/
structure Suffix where
  number : Decimal.Form
  blanks : List Char
deriving DecidableEq

namespace Suffix

def text (s : Suffix) : List Char := '[' :: (s.number.text ++ ']' :: s.blanks)

structure Proper (s : Suffix) : Prop where
  number : s.number.Proper
  blanks : ∀ c ∈ s.blanks, isBlank c = true

end Suffix

/-- What an alternative should be: words with blanks between them, and at least one. -/
def IsAlternative (part : List Char) : Prop :=
  items part ≠ [] ∧ ∀ item ∈ items part, isWord item = true

instance : DecidablePred IsAlternative := fun part =>
  inferInstanceAs (Decidable (items part ≠ [] ∧ ∀ item ∈ items part, isWord item = true))

/-- The parts of a line: what stands before its arrow, what stands between the bars behind it, and
perhaps a weight. -/
structure LineForm where
  left : List Char
  alternatives : List (List Char)
  suffix? : Option Suffix
deriving DecidableEq

namespace LineForm

/-- The line without its weight. -/
def body (f : LineForm) : List Char := f.left ++ '-' :: '>' :: ['|'].intercalate f.alternatives

def text (f : LineForm) : List Char := f.body ++ f.suffix?.elim [] Suffix.text

/-- The category that the line is about, if it is one. -/
def lhs (f : LineForm) : Symbol := String.ofList (trim f.left)

/-- The weight of the line: the number in brackets, or one. -/
def weight? (f : LineForm) : Option Weight :=
  f.suffix?.elim (some Binary64.one) fun s => Decimal.readBinary64? s.number.text

/-- The rule that one alternative stands for. -/
def rule (f : LineForm) (weight : Weight) (part : List Char) : Rule :=
  ⟨f.lhs, (items part).map String.ofList, weight⟩

/-- The line is cut as it should be, whatever its alternatives look like: a category stands before the
arrow, bars stand between alternatives only, and a weight at the end is not taken for an alternative. -/
structure Cut (f : LineForm) : Prop where
  left : f.lhs ∈ Symbol.categories
  alternatives_ne : f.alternatives ≠ []
  alternatives : ∀ part ∈ f.alternatives, '|' ∉ part
  suffix : ∀ s ∈ f.suffix?, s.Proper
  bare : f.suffix? = none → ∀ s : Suffix, s.Proper → ¬s.text <:+ f.body

/-- The parts are what they are meant to be. -/
structure Proper (f : LineForm) : Prop where
  left : f.lhs ∈ Symbol.categories
  alternatives_ne : f.alternatives ≠ []
  alternatives : ∀ part ∈ f.alternatives, IsAlternative part
  suffix : ∀ s ∈ f.suffix?, s.Proper

end LineForm

private theorem trimRight_append_blanks (cs : List Char) {blanks : List Char}
    (h : ∀ c ∈ blanks, isBlank c = true) :
    trimRight (cs ++ blanks) = trimRight cs := by
  induction blanks using List.reverseRecOn with
  | nil => rw [List.append_nil]
  | append_singleton blanks c ih =>
    obtain ⟨hblanks, hc⟩ := List.forall_mem_append.1 h
    rw [← List.append_assoc, trimRight_append_singleton (hc c List.mem_cons_self), ih hblanks]

/-- The blanks that are trimmed off the back. -/
theorem exists_trimRight (cs : List Char) : ∃ blanks, (∀ c ∈ blanks, isBlank c = true) ∧
    cs = trimRight cs ++ blanks := by
  refine ⟨(cs.reverse.takeWhile isBlank).reverse, ?_, ?_⟩
  · intro c hc
    exact List.all_eq_true.1 List.all_takeWhile c (List.mem_reverse.1 hc)
  · rw [trimRight, ← List.reverse_append, List.takeWhile_append_dropWhile, List.reverse_reverse]

/-- A proper weight in brackets is split from whatever stands before it. -/
theorem Suffix.Proper.splitWeight?_append {s : Suffix} (h : s.Proper) (front : List Char) :
    splitWeight? (front ++ s.text) = some (trim front, s.number.written) := by
  have hopen : '[' ∉ s.number.text := fun hmem => (h.number.plain hmem).2.2 rfl
  have hblanks : splitWeight? (front ++ s.text) = splitWeight? (front ++ '[' :: (s.number.text ++ [']'])) := by
    have htext : front ++ s.text = front ++ '[' :: (s.number.text ++ [']']) ++ s.blanks := by simp [text]
    rw [splitWeight?, splitWeight?, htext, trimRight_append_blanks _ h.blanks]
  rw [hblanks, splitWeight?_brackets front hopen, h.number.readWritten?_text]
  rfl

/-- A weight is split off only where there is one. -/
theorem exists_suffix {line front : List Char} {written : Decimal.Written}
    (h : splitWeight? line = some (front, written)) :
    ∃ (body : List Char) (s : Suffix), s.Proper ∧ line = body ++ s.text := by
  obtain ⟨blanks, hblanks, hline⟩ := exists_trimRight line
  rw [splitWeight?] at h
  split at h
  · next back hback =>
    split at h
    · next behind hbehind =>
      obtain ⟨found, hfound, -⟩ := Option.map_eq_some_iff.1 h
      obtain ⟨number, hnumber, htext, -⟩ := Decimal.Form.exists_of_readWritten? hfound
      refine ⟨behind.reverse, ⟨number, blanks⟩, ⟨hnumber, hblanks⟩, ?_⟩
      have hcut := @List.takeWhile_append_dropWhile _ (· != '[') back
      have htrim : trimRight line = (']' :: back).reverse := by rw [← hback, List.reverse_reverse]
      rw [hline, htrim, ← hcut, hbehind, Suffix.text, htext]
      simp
    · cases h
  · cases h

private theorem splitWeight?_eq_none_iff {line : List Char} :
    splitWeight? line = none ↔ ∀ s : Suffix, s.Proper → ¬s.text <:+ line := by
  constructor
  · rintro h s hs ⟨front, rfl⟩
    rw [hs.splitWeight?_append] at h
    cases h
  · intro h
    rw [Option.eq_none_iff_forall_not_mem]
    rintro ⟨front, written⟩ hsplit
    obtain ⟨body, s, hs, rfl⟩ := exists_suffix hsplit
    exact h s hs (List.suffix_append body _)

private theorem readAlternative_of_isAlternative {part : List Char} (h : IsAlternative part) :
    readAlternative part = .ok ((items part).map String.ofList) := by
  have hnone : (items part).find? (!isWord ·) = none :=
    List.find?_eq_none.2 fun item hitem => by simp [h.2 item hitem]
  rw [readAlternative, if_neg (by simpa using h.1), hnone]

private theorem readAlternative_of_not_isAlternative {part : List Char} (h : ¬IsAlternative part) :
    ∃ fault, readAlternative part = .error fault := by
  rw [readAlternative]
  split
  · exact ⟨_, rfl⟩
  · next hne =>
    split
    · exact ⟨_, rfl⟩
    · next hnone =>
      refine absurd ⟨by simpa using hne, fun item hitem => ?_⟩ h
      simpa using List.find?_eq_none.1 hnone item hitem

/-- Alternatives of a category are added up to the first bad one. -/
theorem addAlternatives_of_isCategory {lhs : Symbol} (hlhs : lhs.isCategory = true) (weight : Weight)
    (g : Grammar) (parts : List (List Char)) :
    (addAlternatives lhs weight g parts).1.rules = g.rules ++
        (parts.takeWhile fun part => IsAlternative part).map
          (fun part => ⟨lhs, (items part).map String.ofList, weight⟩) ∧
      ((addAlternatives lhs weight g parts).2 = none ↔ ∀ part ∈ parts, IsAlternative part) := by
  induction parts generalizing g with
  | nil => simp [addAlternatives]
  | cons part rest ih =>
    rw [addAlternatives]
    by_cases hpart : IsAlternative part
    · obtain ⟨next, hadd, hrules⟩ := exists_add hlhs (mt List.map_eq_nil_iff.1 hpart.1) g weight
      rw [readAlternative_of_isAlternative hpart]
      dsimp only
      rw [hadd]
      dsimp only
      rw [(ih next).1, (ih next).2, hrules]
      simp [hpart]
    · obtain ⟨fault, hfault⟩ := readAlternative_of_not_isAlternative hpart
      rw [hfault]
      simp [hpart]

/-- Of anything else none are. -/
theorem addAlternatives_of_not_isCategory {lhs : Symbol} (hlhs : lhs.isCategory = false) (weight : Weight)
    (g : Grammar) {parts : List (List Char)} (hparts : parts ≠ []) :
    ∃ fault, addAlternatives lhs weight g parts = (g, some fault) := by
  obtain ⟨part, rest, rfl⟩ := List.exists_cons_of_ne_nil hparts
  rw [addAlternatives]
  split
  · exact ⟨_, rfl⟩
  · next rhs _ =>
    have hadd : g.add lhs rhs (.number weight) = .error (.notCategory lhs) := by
      rw [add, dif_neg (by simp [hlhs])]
    rw [hadd]
    exact ⟨_, rfl⟩

private theorem addAlternatives_congr {parts parts' : List (List Char)}
    (h : parts.map items = parts'.map items)
    (lhs : Symbol) (weight : Weight) (g : Grammar) :
    addAlternatives lhs weight g parts = addAlternatives lhs weight g parts' := by
  induction parts generalizing parts' g with
  | nil => rw [List.map_eq_nil_iff.1 h.symm]
  | cons part rest ih =>
    obtain ⟨part', rest', rfl, hpart, hrest⟩ := List.map_eq_cons_iff.1 h.symm
    rw [addAlternatives, addAlternatives, readAlternative, readAlternative, hpart]
    simp only [ih hrest.symm]

/-- Blanks at the end of a text leave the items between its bars as they are. -/
theorem map_items_pieces_trimRight (cs : List Char) :
    (pieces (· == '|') (trimRight cs)).map items = (pieces (· == '|') cs).map items := by
  induction cs using List.reverseRecOn with
  | nil => rfl
  | append_singleton cs c ih =>
    by_cases hc : isBlank c = true
    · have hbar : (c == '|') = false := by
        rw [beq_eq_false_iff_ne]
        rintro rfl
        exact absurd hc (by decide)
      obtain ⟨before, last, heq, heq'⟩ := pieces_append_singleton (· == '|') hbar cs
      have hlast : items (last ++ [c]) = items last := by
        rw [items_append_cons last [] hc]
        exact List.append_nil _
      rw [trimRight_append_singleton hc, ih, heq, heq']
      simp only [List.map_append, List.map_cons, List.map_nil, hlast]
    · rw [trimRight_eq_self (by simpa using hc)]

private theorem trimLeft_append_cons (cs : List Char) {c : Char} (hc : isBlank c = false) (ds : List Char) :
    trimLeft (cs ++ c :: ds) = trimLeft cs ++ c :: ds := by
  induction cs with
  | nil => exact trimLeft_eq_self (by rintro _ ⟨⟩; exact hc)
  | cons d rest ih =>
    by_cases hd : isBlank d = true
    · rw [List.cons_append, trimLeft_cons hd, trimLeft_cons hd, ih]
    · rw [trimLeft_eq_self (by simpa using hd), trimLeft_eq_self (by simpa using hd)]

private theorem trimRight_append_cons (cs : List Char) {c : Char} (hc : isBlank c = false) (ds : List Char) :
    trimRight (cs ++ c :: ds) = cs ++ c :: trimRight ds := by
  have hreverse := trimLeft_append_cons ds.reverse hc cs.reverse
  rw [trimLeft] at hreverse
  rw [trimRight, List.reverse_append, List.reverse_cons, List.append_assoc, List.singleton_append, hreverse]
  simp [trimRight, trimLeft]

private theorem exists_trim (cs : List Char) : ∃ front back, (∀ c ∈ front, isBlank c = true) ∧
    (∀ c ∈ back, isBlank c = true) ∧ cs = front ++ trim cs ++ back := by
  obtain ⟨back, hback, htrim⟩ := exists_trimRight (trimLeft cs)
  refine ⟨cs.takeWhile isBlank, back, List.all_eq_true.1 List.all_takeWhile, hback, ?_⟩
  rw [trim, List.append_assoc, ← htrim, trimLeft, List.takeWhile_append_dropWhile]

private theorem trim_blanks_append {blanks : List Char} (h : ∀ c ∈ blanks, isBlank c = true)
    (cs : List Char) :
    trim (blanks ++ cs) = trim cs := by
  rw [trim, trimLeft, List.dropWhile_append_of_pos h]
  rfl

/-- Trimming takes nothing but blanks away. -/
theorem mem_trim {cs : List Char} {c : Char} (h : c ∈ cs) (hc : isBlank c = false) : c ∈ trim cs := by
  obtain ⟨front, back, hfront, hback, heq⟩ := exists_trim cs
  have hnot {blanks : List Char} (hblanks : ∀ c ∈ blanks, isBlank c = true) : c ∉ blanks := by
    intro hmem
    rw [hblanks c hmem] at hc
    cases hc
  rw [heq] at h
  simpa [hnot hfront, hnot hback] using h

/-- Where a word is left after trimming, all else is blank. -/
theorem not_mem_of_isWord_trim {cs : List Char} (h : isWord (trim cs) = true) {c : Char}
    (hblank : isBlank c = false) (hword : isWordChar c = false) : c ∉ cs :=
  fun hmem => not_mem_of_isWord h hword (mem_trim hmem hblank)

/-- So it is where the items are words. -/
theorem IsAlternative.not_mem {part : List Char} (h : IsAlternative part) {c : Char}
    (hblank : isBlank c = false) (hword : isWordChar c = false) : c ∉ part := by
  intro hmem
  obtain ⟨item, hitem, hc⟩ := exists_mem_items hmem hblank
  exact not_mem_of_isWord (h.2 item hitem) hword hc

private theorem intercalate_pieces (c : Char) (cs : List Char) :
    [c].intercalate (pieces (· == c) cs) = cs := by
  rw [pieces_eq_splitOnP]
  exact List.intercalate_splitOn c

namespace LineForm

variable {f : LineForm}

private theorem isWord_left (h : f.lhs ∈ Symbol.categories) : isWord (trim f.left) = true := by
  have hword := isWord_of_isCategory _ h
  rwa [lhs, String.toList_ofList] at hword

/-- The body of a line is its alternatives, one after the other. -/
theorem readBody_body (hleft : f.lhs ∈ Symbol.categories) (hne : f.alternatives ≠ [])
    (hbars : ∀ part ∈ f.alternatives, '|' ∉ part) (g : Grammar) (weight : Weight) :
    readBody g f.body weight = addAlternatives f.lhs weight g f.alternatives := by
  have hword := isWord_left hleft
  have hminus := @not_mem_of_isWord_trim _ hword '-' (by decide) (by decide)
  have hpieces : pieces (· == '|') (['|'].intercalate f.alternatives) = f.alternatives := by
    rw [pieces_eq_splitOnP]
    exact List.splitOn_intercalate '|' hbars hne
  rw [readBody, body, splitArrow?_append hminus]
  simp only [hword, if_true, hpieces, lhs]

/-- So it is without the blanks around it. -/
theorem readBody_trim_body (hleft : f.lhs ∈ Symbol.categories) (hne : f.alternatives ≠ [])
    (hbars : ∀ part ∈ f.alternatives, '|' ∉ part) (g : Grammar) (weight : Weight) :
    readBody g (trim f.body) weight = addAlternatives f.lhs weight g f.alternatives := by
  let right := ['|'].intercalate f.alternatives
  let trimmed : LineForm := ⟨trimLeft f.left, pieces (· == '|') (trimRight right), none⟩
  have hbody : trim f.body = trimmed.body := by
    have harrow : trimRight ('>' :: right) = '>' :: trimRight right :=
      trimRight_append_cons [] (by decide) right
    rw [body, body, trim, trimLeft_append_cons _ (by decide), trimRight_append_cons _ (by decide), harrow,
      intercalate_pieces]
  have hlhs : trimmed.lhs = f.lhs := by
    have hleft : trimLeft (trimLeft f.left) = trimLeft f.left := trimLeft_eq_self fun c hc =>
      isBlank_of_mem_head?_trimLeft hc
    rw [lhs, lhs, trim, hleft]
    rfl
  have hpieces : pieces (· == '|') right = f.alternatives := by
    rw [pieces_eq_splitOnP]
    exact List.splitOn_intercalate '|' hbars hne
  have hcut : ∀ part ∈ trimmed.alternatives, '|' ∉ part := by
    intro part hpart hmem
    cases (mem_of_mem_pieces hpart '|' hmem).2
  rw [hbody, readBody_body (by rwa [hlhs]) (pieces_ne_nil _ _) hcut, hlhs]
  refine addAlternatives_congr ?_ _ _ _
  rw [map_items_pieces_trimRight, hpieces]

/-- A line that is cut as it should be adds its alternatives, with its weight. -/
theorem Cut.readLine_text (h : f.Cut) (g : Grammar) :
    ∃ weight, f.weight? = some weight ∧
      readLine g f.text = addAlternatives f.lhs weight g f.alternatives := by
  rw [weight?, text]
  cases hsuffix : f.suffix? with
  | none =>
    have hbare := splitWeight?_eq_none_iff.2 (h.bare hsuffix)
    refine ⟨Binary64.one, rfl, ?_⟩
    rw [Option.elim_none, List.append_nil, readLine_bare hbare,
      readBody_body h.left h.alternatives_ne h.alternatives]
  | some s =>
    have hs := h.suffix s hsuffix
    refine ⟨s.number.written.toBinary64, hs.number.readBinary64?_text, ?_⟩
    rw [Option.elim_some, readLine_weighted (hs.splitWeight?_append f.body),
      readBody_trim_body h.left h.alternatives_ne h.alternatives]

/-- Where all parts are right, the line is cut as it should be. -/
theorem Proper.cut (h : f.Proper) : f.Cut where
  left := h.left
  alternatives_ne := h.alternatives_ne
  alternatives := fun part hpart => (h.alternatives part hpart).not_mem (by decide) (by decide)
  suffix := h.suffix
  bare := by
    rintro - s - hsuffix
    have hopen : '[' ∈ f.body := hsuffix.subset List.mem_cons_self
    have hleft := @not_mem_of_isWord_trim _ (isWord_left h.left) '[' (by decide) (by decide)
    have hright : '[' ∉ ['|'].intercalate f.alternatives := by
      intro hmem
      rcases mem_intercalate hmem with hbar | ⟨part, hpart, hmem⟩
      · exact absurd hbar (by decide)
      · exact (h.alternatives part hpart).not_mem (by decide) (by decide) hmem
    simp [body, hleft, hright] at hopen

end LineForm

/-- A line that is split at an arrow is made of what stands before and behind it. -/
theorem eq_of_splitArrow? {cs left right : List Char} (h : splitArrow? cs = some (left, right)) :
    cs = left ++ '-' :: '>' :: right := by
  induction cs generalizing left with
  | nil => cases h
  | cons c rest ih =>
    rw [splitArrow?.eq_def] at h
    split at h
    · next heq =>
      cases h
      exact heq
    · next heq =>
      obtain ⟨rfl, rfl⟩ := List.cons.inj heq
      obtain ⟨⟨left', right'⟩, hrest, hsplit⟩ := Option.map_eq_some_iff.1 h
      cases hsplit
      rw [ih hrest, List.cons_append]
    · next heq => cases heq

/-- A body without a category before its first arrow has a fault and adds nothing. -/
theorem readBody_fault_or (g : Grammar) (body : List Char) (weight : Weight) :
    (∃ fault, readBody g body weight = (g, some fault)) ∨
      ∃ left right, body = left ++ '-' :: '>' :: right ∧
        String.ofList (trim left) ∈ Symbol.categories := by
  rw [readBody]
  split
  · exact .inl ⟨_, rfl⟩
  · next left right harrow =>
    by_cases hcategory : Symbol.isCategory (String.ofList (trim left)) = true
    · exact .inr ⟨left, right, eq_of_splitArrow? harrow, List.contains_iff_mem.1 hcategory⟩
    · left
      split
      · exact addAlternatives_of_not_isCategory (by simpa using hcategory) weight g (pieces_ne_nil _ _)
      · exact ⟨_, rfl⟩

/-- A line that is not cut as it should be has a fault and adds nothing. -/
theorem readLine_fault_or (g : Grammar) (line : List Char) :
    (∃ fault, readLine g line = (g, some fault)) ∨ ∃ f : LineForm, f.Cut ∧ f.text = line := by
  have hbars (right : List Char) : ∀ part ∈ pieces (· == '|') right, '|' ∉ part := by
    intro part hpart hmem
    cases (mem_of_mem_pieces hpart '|' hmem).2
  cases hsplit : splitWeight? line with
  | none =>
    rw [readLine_bare hsplit]
    refine (readBody_fault_or g line _).imp_right ?_
    rintro ⟨left, right, rfl, hleft⟩
    let f : LineForm := ⟨left, pieces (· == '|') right, none⟩
    have hbody : f.body = left ++ '-' :: '>' :: right := by rw [LineForm.body, intercalate_pieces]
    refine ⟨f, ⟨hleft, pieces_ne_nil _ _, hbars right, by simp [f], fun _ => ?_⟩, ?_⟩
    · rw [hbody]
      exact splitWeight?_eq_none_iff.1 hsplit
    · rw [LineForm.text, hbody]
      exact List.append_nil _
  | some parts =>
    obtain ⟨body, s, hs, rfl⟩ := exists_suffix hsplit
    rw [readLine_weighted (hs.splitWeight?_append body)]
    refine (readBody_fault_or g (trim body) _).imp_right ?_
    rintro ⟨left, right, htrim, hleft⟩
    obtain ⟨front, back, hfront, -, hbody⟩ := exists_trim body
    let f : LineForm := ⟨front ++ left, pieces (· == '|') (right ++ back), some s⟩
    have hlhs : f.lhs ∈ Symbol.categories := by
      rwa [LineForm.lhs, trim_blanks_append hfront]
    refine ⟨f, ⟨hlhs, pieces_ne_nil _ _, hbars _, by simpa [f] using hs, by simp [f]⟩, ?_⟩
    rw [LineForm.text, LineForm.body, intercalate_pieces, hbody, htrim]
    simp [f]

/-- A line is accepted just if it has the form of rules, and then it adds one rule for each alternative,
all with its weight. If only the cut of the line is right, it adds the rules before the first bad
alternative, and else none. -/
theorem readLine_alternatives (g : Grammar) (line : List Char) :
    ((readLine g line).2 = none ↔ ∃ f : LineForm, f.Proper ∧ f.text = line) ∧
      (∀ f : LineForm, f.Proper → f.text = line → ∃ weight, f.weight? = some weight ∧
        (readLine g line).1.rules = g.rules ++ f.alternatives.map (f.rule weight)) ∧
      (∀ f : LineForm, f.Cut → f.text = line → ∃ weight, f.weight? = some weight ∧
        (readLine g line).1.rules =
          g.rules ++ (f.alternatives.takeWhile fun part => IsAlternative part).map (f.rule weight)) ∧
      ((∀ f : LineForm, f.Cut → f.text ≠ line) → (readLine g line).1 = g) := by
  have hcategory {f : LineForm} (h : f.Cut) : f.lhs.isCategory = true := List.contains_iff_mem.2 h.left
  have hcut : ∀ f : LineForm, f.Cut → f.text = line → ∃ weight, f.weight? = some weight ∧
      (readLine g line).1.rules =
        g.rules ++ (f.alternatives.takeWhile fun part => IsAlternative part).map (f.rule weight) := by
    rintro f hf rfl
    obtain ⟨weight, hweight, hread⟩ := hf.readLine_text g
    rw [hread]
    exact ⟨weight, hweight, (addAlternatives_of_isCategory (hcategory hf) weight g f.alternatives).1⟩
  refine ⟨⟨fun haccepted => ?_, ?_⟩, fun f hf htext => ?_, hcut, fun hnone => ?_⟩
  · obtain ⟨fault, hfault⟩ | ⟨f, hf, rfl⟩ := readLine_fault_or g line
    · rw [hfault] at haccepted
      cases haccepted
    · obtain ⟨weight, -, hread⟩ := hf.readLine_text g
      rw [hread, (addAlternatives_of_isCategory (hcategory hf) weight g f.alternatives).2] at haccepted
      exact ⟨f, ⟨hf.left, hf.alternatives_ne, haccepted, hf.suffix⟩, rfl⟩
  · rintro ⟨f, hf, rfl⟩
    obtain ⟨weight, -, hread⟩ := hf.cut.readLine_text g
    rw [hread, (addAlternatives_of_isCategory (hcategory hf.cut) weight g f.alternatives).2]
    exact hf.alternatives
  · obtain ⟨weight, hweight, hrules⟩ := hcut f hf.cut htext
    have hall : (f.alternatives.takeWhile fun part => IsAlternative part) = f.alternatives :=
      List.takeWhile_eq_self_iff.2 fun part hpart => by simpa using hf.alternatives part hpart
    exact ⟨weight, hweight, by rw [hrules, hall]⟩
  · obtain ⟨fault, hfault⟩ | ⟨f, hf, htext⟩ := readLine_fault_or g line
    · rw [hfault]
    · exact absurd htext (hnone f hf)

/-- Two alternatives, and a weight with a sign, an exponent and digits of two scripts. -/
def ornate : LineForm where
  left := " NP\t".toList
  alternatives := [" x_1 y ".toList, "Ω ".toList]
  suffix? := some ⟨⟨some '-', [], some ['5'], some ⟨'E', some '+', ['٣']⟩⟩, [' ']⟩

private theorem ornate_proper : ornate.Proper where
  left := by decide +kernel
  alternatives_ne := by decide
  alternatives := by decide +kernel
  suffix := by
    rintro _ ⟨⟩
    refine ⟨⟨?_, by decide, List.forall_mem_singleton.2 (by decide), ?_⟩,
      List.forall_mem_singleton.2 (by decide)⟩
    · rintro _ ⟨⟩
      exact .inl rfl
    · rintro _ ⟨⟩
      refine ⟨.inr rfl, ?_, by decide, List.forall_mem_singleton.2 (by decide)⟩
      rintro _ ⟨⟩
      exact .inr rfl

/-- A line whose second alternative is bad. -/
def broken : LineForm where
  left := "S ".toList
  alternatives := [" N ".toList, " ! ".toList, " V".toList]
  suffix? := none

private theorem broken_cut : broken.Cut where
  left := by decide +kernel
  alternatives_ne := by decide
  alternatives := by decide
  suffix := by
    rintro _ ⟨⟩
  bare := fun _ => splitWeight?_eq_none_iff.1 (by decide +kernel)

/-- A line with blanks and a weight in rare notation, and one whose second alternative is no word. -/
theorem readLine_alternatives_ornate :
    ornate.Proper ∧ (readLine empty ornate.text).2 = none ∧
      (∃ weight, ornate.weight? = some weight ∧
        (readLine empty ornate.text).1.rules = [⟨"NP", ["x_1", "y"], weight⟩, ⟨"NP", ["Ω"], weight⟩]) ∧
      broken.Cut ∧ ∃ weight, broken.weight? = some weight ∧
        (readLine empty broken.text).1.rules = [⟨"S", ["N"], weight⟩] := by
  obtain ⟨haccepted, hproper, -⟩ := readLine_alternatives empty ornate.text
  obtain ⟨-, -, hcut, -⟩ := readLine_alternatives empty broken.text
  obtain ⟨weight, hweight, hrules⟩ := hproper ornate ornate_proper rfl
  obtain ⟨weight', hweight', hrules'⟩ := hcut broken broken_cut rfl
  have hlhs : ornate.lhs = "NP" ∧ broken.lhs = "S" := by decide +kernel
  have hitems : (items " x_1 y ".toList).map String.ofList = ["x_1", "y"] ∧
      (items "Ω ".toList).map String.ofList = ["Ω"] ∧
      (items " N ".toList).map String.ofList = ["N"] := by decide +kernel
  have hfront : (broken.alternatives.takeWhile fun part => IsAlternative part) = [" N ".toList] := by
    decide +kernel
  refine ⟨ornate_proper, haccepted.2 ⟨ornate, ornate_proper, rfl⟩, ⟨weight, hweight, ?_⟩, broken_cut,
    weight', hweight', ?_⟩
  · have halternatives : ornate.alternatives = [" x_1 y ".toList, "Ω ".toList] := rfl
    rw [hrules, halternatives]
    simp only [List.map_cons, List.map_nil, LineForm.rule, hlhs, hitems]
    rfl
  · rw [hrules', hfront, List.map_singleton, LineForm.rule, hlhs.2, hitems.2.2]
    rfl

end Earley.Grammar
