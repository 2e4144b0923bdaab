import Earley.Proofs.Token.Layout
import Mathlib.Data.List.Basic

namespace Earley

open Text

namespace Token

/-- The token where `offset` more characters stand before its text. -/
def shift (offset : Nat) (t : Token) : Token := ⟨t.text, t.position + offset⟩

variable {cs part : List Char} {position : Nat} {ts us : List Token}

/-- What may be cut off the front of a text is determined by the text. -/
theorem Lexeme.unique {other : List Char} (h : Lexeme cs part) (h' : Lexeme cs other) : part = other := by
  -- the first character tells whether it is a word or a mark
  have hapart {word mark : List Char} (hword : LongestWord cs word) (hmark : mark <+: cs ∧ MarkForm mark) :
      False := by
    obtain ⟨⟨_, rfl⟩, c, rfl, hc, -⟩ := hmark
    obtain ⟨d, more, rfl⟩ := List.exists_cons_of_ne_nil hword.form.ne_nil
    have hd : isWordChar d = true := hword.form.head
    rw [(List.cons_prefix_cons.1 hword.front).1, hc] at hd
    cases hd
  rcases h with h | h <;> rcases h' with h' | h'
  · have hlength : part.length = other.length :=
      Nat.le_antisymm (h'.longest _ h.front h.form) (h.longest _ h'.front h'.form)
    exact (List.prefix_of_prefix_length_le h.front h'.front (Nat.le_of_eq hlength)).eq_of_length hlength
  · exact (hapart h h').elim
  · exact (hapart h' h).elim
  · obtain ⟨hfront, c, rfl, -⟩ := h
    obtain ⟨hfront', d, rfl, -⟩ := h'
    exact (List.prefix_of_prefix_length_le hfront hfront' (Nat.le_refl _)).eq_of_length rfl

private theorem Lexeme.not_blank {c : Char} (h : Lexeme (c :: cs) part) : isBlank c = false := by
  obtain ⟨d, more, rfl⟩ := List.exists_cons_of_ne_nil h.ne_nil
  obtain ⟨rfl, -⟩ := List.cons_prefix_cons.1 h.front
  exact h.solid d List.mem_cons_self

namespace Cut

/-- A text is cut in one way only. -/
theorem unique (h : Cut position cs ts) (h' : Cut position cs us) : ts = us := by
  induction h generalizing us with
  | nil position =>
    generalize hcs : [] = cs at h'
    cases h' with
    | nil => rfl
    | blank _ _ => cases hcs
    | token hpart _ => exact absurd (List.append_eq_nil_iff.1 hcs.symm).1 hpart.ne_nil
  | @blank position c cs ts hc _ ih =>
    generalize hcs : c :: cs = text at h'
    cases h' with
    | nil => cases hcs
    | blank _ hrest =>
      cases hcs
      exact ih hrest
    | token hpart _ =>
      rw [← hcs] at hpart
      exact absurd hc (Bool.not_eq_true _ ▸ hpart.not_blank)
  | @token position part rest ts hpart _ ih =>
    generalize hcs : part ++ rest = text at h'
    cases h' with
    | nil => exact absurd (List.append_eq_nil_iff.1 hcs).1 hpart.ne_nil
    | blank hc _ =>
      rw [hcs] at hpart
      exact absurd hc (Bool.not_eq_true _ ▸ hpart.not_blank)
    | @token _ other rest' us hother hrest =>
      obtain rfl := hpart.unique (hcs ▸ hother)
      obtain rfl := List.append_cancel_left hcs
      rw [ih hrest]

private theorem eq_scanFrom (h : Cut position cs ts) : scanFrom position cs = ts :=
  (cut_scanFrom position cs).unique h

/-- Characters before a text move its tokens. -/
theorem shift (h : Cut position cs ts) (offset : Nat) :
    Cut (position + offset) cs (ts.map (shift offset)) := by
  induction h with
  | nil position => exact .nil _
  | blank hc _ ih => exact .blank hc (by rwa [Nat.add_right_comm])
  | token hpart _ ih => exact .token hpart (by rwa [Nat.add_right_comm])

/-- Blanks hold no token. -/
theorem blanks {gap : List Char} (hgap : ∀ c ∈ gap, isBlank c = true)
    (h : Cut (position + gap.length) cs ts) : Cut position (gap ++ cs) ts := by
  induction gap generalizing position with
  | nil => exact h
  | cons c rest ih =>
    obtain ⟨hc, hrest⟩ := List.forall_mem_cons.1 hgap
    refine .blank hc (ih hrest ?_)
    rwa [List.length_cons, Nat.add_comm rest.length 1, ← Nat.add_assoc] at h

end Cut

/-- A part without blanks that a text begins with ends before its first blank. -/
theorem prefix_of_solid {c : Char} {rest : List Char} (hc : isBlank c = true) (hpart : Solid part)
    (h : part <+: cs ++ c :: rest) : part <+: cs := by
  rcases List.prefix_or_prefix_of_prefix h (List.prefix_append cs (c :: rest)) with hcs | ⟨beyond, rfl⟩
  · exact hcs
  · cases beyond with
    | nil => simp
    | cons d more =>
      obtain ⟨rfl, -⟩ := List.cons_prefix_cons.1 ((List.prefix_append_right_inj cs).1 h)
      exact absurd (List.mem_append_right cs List.mem_cons_self) (hpart.not_mem hc)

/-- What stands behind a blank changes nothing about a token before it. -/
theorem Lexeme.append (h : Lexeme cs part) {c : Char} (hc : isBlank c = true) (rest : List Char) :
    Lexeme (cs ++ c :: rest) part := by
  rcases h with h | ⟨hfront, hmark⟩
  · exact .inl ⟨h.front.trans (List.prefix_append _ _), h.form, fun other hother hform =>
      h.longest other (prefix_of_solid hc hform.solid hother) hform⟩
  · exact .inr ⟨hfront.trans (List.prefix_append _ _), hmark⟩

/-- Where a blank stands, a text is cut into the tokens before it and those behind it. -/
theorem Cut.append (h : Cut position cs ts) {c : Char} (hc : isBlank c = true) {rest : List Char}
    (hrest : Cut (position + cs.length) (c :: rest) us) : Cut position (cs ++ c :: rest) (ts ++ us) := by
  induction h with
  | nil position => exact hrest
  | @blank position d cs ts hd _ ih =>
    refine .blank hd (ih ?_)
    rwa [List.length_cons, Nat.add_comm cs.length 1, ← Nat.add_assoc] at hrest
  | @token position part behind ts hpart _ ih =>
    rw [List.length_append, ← Nat.add_assoc] at hrest
    rw [List.append_assoc]
    refine .token ?_ (ih hrest)
    rw [← List.append_assoc]
    exact hpart.append hc rest

/-- A text that has the form of a word is its only token. -/
theorem Cut.word (h : WordForm cs) (position : Nat) : Cut position cs [⟨String.ofList cs, position⟩] := by
  have hword : Lexeme (cs ++ []) cs := by
    rw [List.append_nil]
    exact .inl ⟨List.prefix_rfl, h, fun other hother _ => hother.length_le⟩
  have hcut := Cut.token hword (.nil (position + cs.length))
  rwa [List.append_nil] at hcut

end Token

open Token

private theorem cut_tokenize (text : String) : Cut 0 text.toList (tokenize text) := cut_scanFrom 0 text.toList

/-- The tokens of two texts with blanks between them. -/
theorem tokenize_append {s : String} (hne : s ≠ "") (hblank : ∀ c ∈ s.toList, isBlank c = true)
    (a b : String) :
    tokenize (a ++ s ++ b) = tokenize a ++ (tokenize b).map (shift (a.length + s.length)) := by
  obtain ⟨c, gap, hs⟩ := List.exists_cons_of_ne_nil (mt String.toList_eq_nil_iff.1 hne)
  have hc : isBlank c = true := hblank c (hs ▸ List.mem_cons_self)
  have hbehind := (cut_tokenize b).shift (a.length + s.length)
  rw [← Nat.add_assoc, ← String.length_toList, ← String.length_toList] at hbehind
  have hgap := hbehind.blanks hblank
  rw [hs, List.cons_append] at hgap
  have hcut := (cut_tokenize a).append hc hgap
  rw [← List.cons_append, ← hs, ← List.append_assoc, ← String.toList_append, ← String.toList_append] at hcut
  exact hcut.eq_scanFrom

private theorem words_append {s : String} (hne : s ≠ "") (hblank : ∀ c ∈ s.toList, isBlank c = true)
    (a b : String) : words (a ++ s ++ b) = words a ++ words b := by
  rw [words, tokenize_append hne hblank, List.filter_append, List.map_append, List.filter_map, List.map_map]
  rfl

private theorem words_intercalate (texts : List String) :
    words (" ".intercalate texts) = texts.flatMap words := by
  induction texts with
  | nil => rw [String.intercalate_nil, words, tokenize, String.toList_empty, scanFrom]; rfl
  | cons text rest ih =>
    cases rest with
    | nil => simp
    | cons next more =>
      have hspace : ∀ c ∈ " ".toList, isBlank c = true := List.all_eq_true.1 (by decide)
      rw [String.intercalate_cons_cons, words_append (by decide) hspace, ih]
      rfl

/-- A word of a text is its own only word. -/
theorem words_of_mem {text word : String} (h : word ∈ words text) : words word = [word] := by
  obtain ⟨t, ht, rfl⟩ := List.mem_map.1 h
  obtain ⟨hmem, hisWord⟩ := List.mem_filter.1 ht
  obtain ⟨k, -, hpart⟩ := (cut_tokenize text).lexeme t hmem
  have hform : WordForm t.text.toList := by
    rwa [← hpart.isWord_iff t.position, String.ofList_toList]
  have htokens : tokenize t.text = [⟨t.text, 0⟩] := by
    have hcut := (Cut.word hform 0).eq_scanFrom
    rwa [String.ofList_toList] at hcut
  have hfilter : [Token.mk t.text 0].filter Token.isWord = [⟨t.text, 0⟩] := List.filter_cons_of_pos hisWord
  rw [words, htokens, hfilter]
  rfl

/-- Blanks between two texts keep their tokens apart: they are the tokens of the first, and behind them
those of the second, moved by what stands before it. So the words of joined texts are the words of each,
and words that are joined are found again. -/
theorem tokenize_parted :
    (∀ a s b : String, s ≠ "" → (∀ c ∈ s.toList, isBlank c = true) →
      tokenize (a ++ s ++ b) = tokenize a ++ (tokenize b).map (shift (a.length + s.length))) ∧
    (∀ texts : List String, words (" ".intercalate texts) = texts.flatMap words) ∧
    ∀ text : String, words (" ".intercalate (words text)) = words text := by
  refine ⟨fun a s b hne hblank => tokenize_append hne hblank a b, words_intercalate, fun text => ?_⟩
  have hwords : (words text).flatMap words = (words text).flatMap fun word => [word] :=
    List.flatMap_congr fun word hword => words_of_mem hword
  rw [words_intercalate, hwords]
  exact List.flatMap_singleton' _

/-- An apostrophe before the blanks and another behind them join nothing, and separators count as blanks. -/
theorem tokenize_parted_apostrophes :
    ("\t\x1f" ≠ "" ∧ ∀ c ∈ "\t\x1f".toList, isBlank c = true) ∧
      tokenize ("it'" ++ "\t\x1f" ++ "'s a'b") =
        tokenize "it'" ++ (tokenize "'s a'b").map (shift ("it'".length + "\t\x1f".length)) := by
  have hblank : ∀ c ∈ "\t\x1f".toList, isBlank c = true := List.all_eq_true.1 (by decide)
  exact ⟨⟨by decide, hblank⟩, tokenize_parted.1 "it'" "\t\x1f" "'s a'b" (by decide) hblank⟩

end Earley
