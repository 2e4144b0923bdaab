import Earley.Proofs.Text.Pieces
import Earley.Token
import Mathlib.Logic.ExistsUnique

namespace Earley

open Text

namespace Token

/-- The form of a word: word characters, and perhaps one apostrophe with more of them behind it. -/
inductive WordForm : List Char → Prop where
  | plain {run : List Char} (hrun : Text.isWord run = true) : WordForm run
  | joined {run more : List Char} (hrun : Text.isWord run = true) (hmore : Text.isWord more = true) :
    WordForm (run ++ '\'' :: more)

/-- A single character that belongs to no word and is no blank. -/
def MarkForm (cs : List Char) : Prop :=
  ∃ c, cs = [c] ∧ isWordChar c = false ∧ isBlank c = false

/-- Of all words that a text begins with, one that reaches as far right as any. -/
structure LongestWord (cs word : List Char) : Prop where
  front : word <+: cs
  form : WordForm word
  longest : ∀ other, other <+: cs → WordForm other → other.length ≤ word.length

/-- What may be cut off the front of a text as one token. -/
def Lexeme (cs part : List Char) : Prop :=
  LongestWord cs part ∨ part <+: cs ∧ MarkForm part

/-- Tokens that a text may be cut into when its first character stands at a given position. -/
inductive Cut : Nat → List Char → List Token → Prop where
  | nil (position : Nat) : Cut position [] []
  | blank {position : Nat} {c : Char} {cs : List Char} {ts : List Token} (hc : isBlank c = true)
    (hrest : Cut (position + 1) cs ts) : Cut position (c :: cs) ts
  | token {position : Nat} {part rest : List Char} {ts : List Token}
    (hpart : Lexeme (part ++ rest) part) (hrest : Cut (position + part.length) rest ts) :
    Cut position (part ++ rest) (⟨String.ofList part, position⟩ :: ts)

/-- The position behind the last character of a token. -/
def stop (t : Token) : Nat := t.position + t.text.length

/-- The range of a token holds a character and ends before that of another one begins. -/
def Before (t u : Token) : Prop := t.position < t.stop ∧ t.stop ≤ u.position

variable {cs part : List Char} {position : Nat} {ts : List Token}

private theorem takeWord_append (cs : List Char) : (takeWord cs).1 ++ (takeWord cs).2 = cs := by
  have hcs := @List.takeWhile_append_dropWhile _ isWordChar cs
  unfold takeWord
  split
  · next c rest htail =>
    rw [htail] at hcs
    split
    · rw [List.append_assoc, List.cons_append, List.takeWhile_append_dropWhile, hcs]
    · exact hcs
  · exact hcs

/-- A word is joined if a word character stands behind the apostrophe, and is a plain run else. -/
theorem takeWord_cases (cs : List Char) :
    (∃ c rest, cs.dropWhile isWordChar = '\'' :: c :: rest ∧ isWordChar c = true ∧
      (takeWord cs).1 = cs.takeWhile isWordChar ++ '\'' :: (c :: rest).takeWhile isWordChar) ∨
    (∀ c rest, cs.dropWhile isWordChar = '\'' :: c :: rest → isWordChar c = false) ∧
      (takeWord cs).1 = cs.takeWhile isWordChar := by
  unfold takeWord
  split
  · next c rest htail =>
    by_cases hc : isWordChar c = true
    · exact .inl ⟨c, rest, htail, hc, by rw [if_pos hc]⟩
    · refine .inr ⟨fun d more hmore => ?_, by rw [if_neg hc]⟩
      cases htail.symm.trans hmore
      exact Bool.not_eq_true _ ▸ hc
  · next hother => exact .inr ⟨fun c rest htail => absurd htail (hother c rest), rfl⟩

private theorem isWord_takeWhile {c : Char} (hc : isWordChar c = true) (cs : List Char) :
    Text.isWord ((c :: cs).takeWhile isWordChar) = true := by
  apply isWord_iff.2
  constructor
  · rw [List.takeWhile_cons_of_pos hc]
    exact List.cons_ne_nil _ _
  · exact List.all_eq_true.1 List.all_takeWhile

/-- Word characters at the front of a text belong to its first run. -/
theorem length_le_takeWhile {run : List Char} (hrun : Text.isWord run = true) (rest : List Char) :
    run.length ≤ ((run ++ rest).takeWhile isWordChar).length := by
  rw [List.takeWhile_append_of_pos (isWord_iff.1 hrun).2, List.length_append]
  omega

private theorem apostrophe_stops (cs : List Char) : ∀ d ∈ ('\'' :: cs).head?, isWordChar d = false := by
  rintro _ ⟨⟩
  decide

/-- Behind a first character that is a word character, the longest word is taken. -/
theorem longestWord_takeWord {c : Char} (hc : isWordChar c = true) (cs : List Char) :
    LongestWord (c :: cs) (takeWord (c :: cs)).1 := by
  have hrun := isWord_takeWhile hc cs
  have happend := takeWord_append (c :: cs)
  generalize c :: cs = text at hrun happend ⊢
  obtain ⟨d, rest, htail, hd, hword⟩ | ⟨hnone, hword⟩ := takeWord_cases text
  · refine ⟨⟨_, happend⟩, hword ▸ .joined hrun (isWord_takeWhile hd rest), ?_⟩
    rw [hword, List.length_append, List.length_cons]
    rintro _ ⟨behind, rfl⟩ (hother | ⟨hother, hmore⟩)
    · have hle := length_le_takeWhile hother behind
      omega
    · rw [List.append_assoc, List.cons_append] at htail ⊢
      have hchars := (isWord_iff.1 hother).2
      rw [dropWhile_append_stop hchars (apostrophe_stops _)] at htail
      rw [takeWhile_append_stop hchars (apostrophe_stops _), ← (List.cons.inj htail).2,
        List.length_append, List.length_cons]
      have hle := length_le_takeWhile hmore behind
      omega
  · refine ⟨⟨_, happend⟩, hword ▸ .plain hrun, ?_⟩
    rw [hword]
    rintro _ ⟨behind, rfl⟩ (hother | ⟨hother, hmore⟩)
    · exact length_le_takeWhile hother _
    · -- an apostrophe with a word character behind it would have been taken
      rw [List.append_assoc, List.cons_append] at hnone
      obtain ⟨d, more, rfl⟩ := List.exists_cons_of_ne_nil (isWord.ne_nil hmore)
      have hd := hnone d _ (dropWhile_append_stop (isWord_iff.1 hother).2 (apostrophe_stops _))
      rw [(isWord_iff.1 hmore).2 d List.mem_cons_self] at hd
      cases hd

/-- What has the form of a word begins with a word character. -/
theorem WordForm.head (h : WordForm cs) : cs.head?.any isWordChar = true := by
  have hfirst {run : List Char} (hrun : Text.isWord run = true) (behind : List Char) :
      (run ++ behind).head?.any isWordChar = true := by
    obtain ⟨c, more, rfl⟩ := List.exists_cons_of_ne_nil (isWord.ne_nil hrun)
    exact (isWord_iff.1 hrun).2 c List.mem_cons_self
  cases h with
  | plain hrun => simpa using hfirst hrun []
  | joined hrun _ => exact hfirst hrun _

/-- What has the form of a word has no blanks in it. -/
theorem WordForm.solid (h : WordForm cs) : Solid cs := by
  cases h with
  | plain hrun => exact Solid.of_isWord hrun
  | joined hrun hmore =>
    exact (Solid.of_isWord hrun).append (List.forall_mem_cons.2 ⟨by decide, Solid.of_isWord hmore⟩)

/-- What has the form of a word is not empty. -/
theorem WordForm.ne_nil (h : WordForm cs) : cs ≠ [] := by
  rintro rfl
  cases h.head

/-- A text has the form of a word just if it is one that is taken whole. -/
theorem wordForm_iff (cs : List Char) :
    WordForm cs ↔ cs.head?.any isWordChar = true ∧ (takeWord cs).2 = [] := by
  have happend := takeWord_append cs
  constructor
  · intro h
    refine ⟨h.head, ?_⟩
    obtain ⟨c, more, rfl⟩ := List.exists_cons_of_ne_nil h.ne_nil
    have hle := (longestWord_takeWord h.head more).longest _ List.prefix_rfl h
    have hlength := congrArg List.length happend
    rw [List.length_append] at hlength
    exact List.eq_nil_of_length_eq_zero (by omega)
  · rintro ⟨hhead, hnil⟩
    rw [hnil, List.append_nil] at happend
    cases cs with
    | nil => cases hhead
    | cons c more => exact happend ▸ (longestWord_takeWord hhead more).form

instance : DecidablePred WordForm := fun cs => decidable_of_iff' _ (wordForm_iff cs)

namespace Lexeme

/-- A lexeme stands at the front of the text. -/
theorem front (h : Lexeme cs part) : part <+: cs :=
  h.elim LongestWord.front And.left

/-- A lexeme is a word or a mark. -/
theorem form (h : Lexeme cs part) : WordForm part ∨ MarkForm part :=
  h.imp LongestWord.form And.right

/-- No lexeme is empty. -/
theorem ne_nil (h : Lexeme cs part) : part ≠ [] := by
  rcases h.form with hword | ⟨c, rfl, -⟩
  · exact hword.ne_nil
  · exact List.cons_ne_nil _ _

/-- No lexeme has blanks in it. -/
theorem solid (h : Lexeme cs part) : Solid part := by
  rcases h.form with hword | ⟨c, rfl, -, hblank⟩
  · exact hword.solid
  · exact List.forall_mem_singleton.2 hblank

/-- Words are told from marks by their first character. -/
theorem isWord_iff (h : Lexeme cs part) (position : Nat) :
    isWord ⟨String.ofList part, position⟩ = true ↔ WordForm part := by
  rw [isWord, String.toList_ofList]
  constructor
  · intro hhead
    refine h.form.resolve_right ?_
    rintro ⟨c, rfl, hmark, -⟩
    have hword : isWordChar c = true := hhead
    rw [hmark] at hword
    cases hword
  · exact WordForm.head

end Lexeme

/-- The scan cuts a text into tokens as the layout asks for. -/
theorem cut_scanFrom (position : Nat) (cs : List Char) : Cut position cs (scanFrom position cs) := by
  induction position, cs using scanFrom.induct with
  | case1 position =>
    rw [scanFrom]
    exact .nil position
  | case2 position c cs hc word ih =>
    have happend : word.1 ++ word.2 = c :: cs := takeWord_append (c :: cs)
    have hpart : Lexeme (word.1 ++ word.2) word.1 := by
      rw [happend]
      exact .inl (longestWord_takeWord hc cs)
    have hcut := Cut.token hpart ih
    rw [happend] at hcut
    rw [scanFrom, dif_pos hc]
    exact hcut
  | case3 position c cs hc hblank ih =>
    rw [scanFrom, dif_neg hc, if_pos hblank]
    exact .blank hblank ih
  | case4 position c cs hc hblank ih =>
    rw [scanFrom, dif_neg hc, if_neg hblank]
    have hmark : MarkForm [c] := ⟨c, rfl, by simpa using hc, by simpa using hblank⟩
    exact @Cut.token position [c] cs _ (.inr ⟨List.prefix_append _ _, hmark⟩) ih

namespace Cut

/-- Each token is cut off what is left of the text at its position. -/
theorem lexeme (h : Cut position cs ts) :
    ∀ t ∈ ts, ∃ k, t.position = position + k ∧ Lexeme (cs.drop k) t.text.toList := by
  induction h with
  | nil => exact List.forall_mem_nil _
  | blank _ _ ih =>
    intro t ht
    obtain ⟨k, hk, hpart⟩ := ih t ht
    exact ⟨k + 1, by omega, hpart⟩
  | @token position part rest ts hpart _ ih =>
    refine List.forall_mem_cons.2 ⟨⟨0, rfl, by rwa [String.toList_ofList]⟩, fun t ht => ?_⟩
    obtain ⟨k, hk, hlater⟩ := ih t ht
    refine ⟨part.length + k, by omega, ?_⟩
    rwa [List.drop_length_add_append]

/-- Of two tokens the first ends before the second begins. -/
theorem before (h : Cut position cs ts) : ts.Pairwise Before := by
  induction h with
  | nil => exact List.Pairwise.nil
  | blank _ _ ih => exact ih
  | @token position part rest ts hpart hrest ih =>
    refine List.pairwise_cons.2 ⟨fun t ht => ?_, ih⟩
    obtain ⟨k, hk, -⟩ := hrest.lexeme t ht
    have hlength := List.length_pos_iff.2 hpart.ne_nil
    simp only [Before, stop, String.length_ofList]
    omega

/-- A character that is no blank lies in a token. -/
theorem covers (h : Cut position cs ts) {i : Nat} {c : Char} (hi : cs[i]? = some c)
    (hc : isBlank c = false) : ∃ t ∈ ts, t.position ≤ position + i ∧ position + i < t.stop := by
  induction h generalizing i with
  | nil => cases hi
  | @blank position d cs ts hd _ ih =>
    cases i with
    | zero =>
      cases hi
      rw [hd] at hc
      cases hc
    | succ i =>
      obtain ⟨t, ht, hfrom, hto⟩ := ih (by simpa using hi)
      exact ⟨t, ht, by omega, by omega⟩
  | @token position part rest ts _ _ ih =>
    by_cases hpart : i < part.length
    · refine ⟨_, List.mem_cons_self, Nat.le_add_right _ _, ?_⟩
      simp only [stop, String.length_ofList]
      omega
    · rw [List.getElem?_append_right (by omega)] at hi
      obtain ⟨t, ht, hfrom, hto⟩ := ih hi
      exact ⟨t, List.mem_cons_of_mem _ ht, by omega, by omega⟩

end Cut

/-- Of tokens one before the other only one holds a given position. -/
theorem eq_of_before (h : ts.Pairwise Before) {t u : Token} (ht : t ∈ ts) (hu : u ∈ ts) {i : Nat}
    (hti : t.position ≤ i ∧ i < t.stop) (hui : u.position ≤ i ∧ i < u.stop) : t = u := by
  induction h with
  | nil => cases ht
  | @cons first rest hfirst _ ih =>
    rcases List.mem_cons.1 ht with rfl | htrest
    · rcases List.mem_cons.1 hu with rfl | hurest
      · rfl
      · have hstop := (hfirst u hurest).2
        omega
    · rcases List.mem_cons.1 hu with rfl | hurest
      · have hstop := (hfirst t htrest).2
        omega
      · exact ih htrest hurest

end Token

open Token

/-- The tokens of a text have ranges one before the other; each is the text in its range, without
blanks, and is either the longest word there or a mark. A character that is no blank lies in exactly one
of them, and the words are the tokens that have the form of a word. -/
theorem tokenize_covers (text : String) :
    (tokenize text).Pairwise Before ∧
      (∀ t ∈ tokenize text,
        (text.toList.drop t.position).take t.text.length = t.text.toList ∧ Solid t.text.toList ∧
          (LongestWord (text.toList.drop t.position) t.text.toList ∨ MarkForm t.text.toList)) ∧
      (∀ i c, text.toList[i]? = some c → isBlank c = false →
        ∃! t, t ∈ tokenize text ∧ t.position ≤ i ∧ i < t.stop) ∧
      words text = ((tokenize text).filter fun t => WordForm t.text.toList).map Token.text := by
  have hcut : Cut 0 text.toList (tokenize text) := cut_scanFrom 0 text.toList
  have hlexeme : ∀ t ∈ tokenize text, Lexeme (text.toList.drop t.position) t.text.toList := by
    intro t ht
    obtain ⟨k, hk, hpart⟩ := hcut.lexeme t ht
    rwa [hk, Nat.zero_add]
  refine ⟨hcut.before, fun t ht => ?_, fun i c hi hc => ?_, ?_⟩
  · have hpart := hlexeme t ht
    refine ⟨?_, hpart.solid, hpart.imp_right And.right⟩
    rw [← String.length_toList, ← List.prefix_iff_eq_take.1 hpart.front]
  · obtain ⟨t, ht, hfrom, hto⟩ := hcut.covers hi hc
    rw [Nat.zero_add] at hfrom hto
    refine ⟨t, ⟨ht, hfrom, hto⟩, ?_⟩
    rintro u ⟨hu, hui⟩
    exact eq_of_before hcut.before hu ht hui ⟨hfrom, hto⟩
  · rw [words]
    congr 1
    refine List.filter_congr fun t ht => ?_
    have hword := (hlexeme t ht).isWord_iff t.position
    rw [String.ofList_toList] at hword
    rw [Bool.eq_iff_iff, hword, decide_eq_true_eq]

example : (tokenize "ab'c'd '!").map (fun t => (t.position, t.text)) =
    [(0, "ab'c"), (4, "'"), (5, "d"), (7, "'"), (8, "!")] := by
  decide +kernel

end Earley
