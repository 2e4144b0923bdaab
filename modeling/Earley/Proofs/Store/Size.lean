import Earley.Proofs.Grammar.Syntax
import Earley.Proofs.Lexicon.Syntax
import Earley.Store

namespace Earley

namespace Text

private theorem length_trim_le (cs : List Char) : (trim cs).length ≤ cs.length := by
  rw [trim, trimRight, List.length_reverse]
  calc ((trimLeft cs).reverse.dropWhile isBlank).length
      ≤ (trimLeft cs).reverse.length := (List.dropWhile_sublist _).length_le
    _ = (trimLeft cs).length := List.length_reverse
    _ ≤ cs.length := (List.dropWhile_sublist _).length_le

private theorem length_pieces_le (cut : Char → Bool) (cs : List Char) :
    (pieces cut cs).length ≤ cs.length + 1 := by
  induction cs with
  | nil => exact Nat.le_refl _
  | cons c rest ih =>
    by_cases hc : cut c = true
    · rw [pieces, if_pos hc, List.length_cons, List.length_cons]
      omega
    · obtain ⟨piece, more, heq, heq'⟩ := pieces_cons cut (by simpa using hc) rest
      rw [heq, List.length_cons] at ih
      rw [heq', List.length_cons, List.length_cons]
      omega

private theorem sum_length_pieces_le (cut : Char → Bool) (cs : List Char) :
    ((pieces cut cs).map List.length).sum ≤ cs.length := by
  induction cs with
  | nil => exact Nat.le_refl _
  | cons c rest ih =>
    by_cases hc : cut c = true
    · rw [pieces, if_pos hc, List.map_cons, List.sum_cons, List.length_nil, List.length_cons]
      omega
    · obtain ⟨piece, more, heq, heq'⟩ := pieces_cons cut (by simpa using hc) rest
      rw [heq, List.map_cons, List.sum_cons] at ih
      rw [heq', List.map_cons, List.sum_cons, List.length_cons, List.length_cons]
      omega

section Reading

variable {σ ε : Type} {read : σ → List Char → σ × Option ε} (count : σ → Nat)

/-- Where no line counts for more than its characters, no lines do. -/
theorem count_readLinesFrom_le (number : Nat) (state : σ) (ls : List (List Char))
    (hstep : ∀ state line, isSilent line = false → count (read state line).1 ≤ count state + line.length) :
    count (readLinesFrom read number state ls).1 ≤ count state + (ls.map List.length).sum := by
  induction ls generalizing number state with
  | nil => exact Nat.le_refl _
  | cons raw rest ih =>
    rw [readLinesFrom, List.map_cons, List.sum_cons]
    split
    · have hrest := ih (number + 1) state
      omega
    · next hspeaks =>
      have hline := hstep state (trim raw) (by simpa using hspeaks)
      have htrim := length_trim_le raw
      split
      · next next heq =>
        have hrest := ih (number + 1) next
        rw [heq] at hline
        dsimp only at hline
        omega
      · next heq =>
        rw [heq] at hline
        dsimp only at hline ⊢
        omega

/-- Nor does a text. -/
theorem count_readText_le (initial : σ) (text : String)
    (hstep : ∀ state line, isSilent line = false → count (read state line).1 ≤ count state + line.length) :
    count (readText read initial text).1 ≤ count initial + text.length := by
  have hlines := count_readLinesFrom_le count 1 initial (lines (trim text.toList)) hstep
  have hsum : ((lines (trim text.toList)).map List.length).sum ≤ (trim text.toList).length :=
    sum_length_pieces_le _ _
  have htrim := length_trim_le text.toList
  rw [String.length_toList] at htrim
  rw [readText]
  omega

end Reading

end Text

open Text

namespace Grammar

private theorem length_addAlternatives_le (lhs : Symbol) (weight : Weight) (g : Grammar)
    (parts : List (List Char)) :
    (addAlternatives lhs weight g parts).1.rules.length ≤ g.rules.length + parts.length := by
  induction parts generalizing g with
  | nil => exact Nat.le_refl _
  | cons part rest ih =>
    rw [addAlternatives]
    split
    · exact Nat.le_add_right _ _
    · split
      · exact Nat.le_add_right _ _
      · next next hnext =>
        have hrest := ih next
        rw [rules_of_add hnext, List.length_append, List.length_singleton] at hrest
        rw [List.length_cons]
        omega

private theorem length_splitWeight? {line front : List Char} {written : Decimal.Written}
    (h : splitWeight? line = some (front, written)) : front.length ≤ line.length := by
  obtain ⟨body, s, hs, rfl⟩ := exists_suffix h
  rw [hs.splitWeight?_append body] at h
  obtain ⟨rfl, -⟩ := Prod.mk.inj (Option.some.inj h)
  calc (trim body).length
      ≤ body.length := length_trim_le body
    _ ≤ (body ++ s.text).length := by rw [List.length_append]; exact Nat.le_add_right _ _

private theorem length_readLine_le (g : Grammar) (line : List Char) :
    (readLine g line).1.rules.length ≤ g.rules.length + line.length := by
  have hbody (body : List Char) (weight : Weight) (hle : body.length ≤ line.length) :
      (readBody g body weight).1.rules.length ≤ g.rules.length + line.length := by
    rw [readBody]
    split
    · exact Nat.le_add_right _ _
    · next left right harrow =>
      rw [eq_of_splitArrow? harrow, List.length_append, List.length_cons, List.length_cons] at hle
      have hpieces := length_pieces_le (· == '|') right
      split
      · refine (length_addAlternatives_le _ _ _ _).trans ?_
        omega
      · exact Nat.le_add_right _ _
  cases hsplit : splitWeight? line with
  | none =>
    rw [readLine_bare hsplit]
    exact hbody _ _ (Nat.le_refl _)
  | some parts =>
    rw [readLine_weighted hsplit]
    exact hbody _ _ (length_splitWeight? hsplit)

private theorem length_rules_le {text : String} {g : Grammar} (h : ofText text = .ok g) :
    g.rules.length ≤ text.length := by
  have hcount := count_readText_le (fun g : Grammar => g.rules.length) empty text
    fun g line _ => length_readLine_le g line
  rw [ofText_eq_ok_iff.1 h] at hcount
  exact hcount.trans (Nat.le_of_eq (Nat.zero_add _))

end Grammar

namespace Lexicon

private theorem size_readLine_le (lex : Lexicon) {line : List Char} (hspeaks : isSilent line = false) :
    (readLine lex line).1.size ≤ lex.size + line.length := by
  have hline : 0 < line.length := by
    cases line with
    | nil => cases hspeaks
    | cons c rest => exact Nat.succ_pos _
  rw [readLine]
  split
  · exact Nat.le_add_right _ _
  · split
    · exact Nat.le_add_right _ _
    · next features baseForm? _ =>
      obtain ⟨r, hr⟩ := exists_gains_add (String.ofList _) (String.ofList _) features baseForm?
      rw [(hr lex).size_eq]
      omega

private theorem size_le {text : String} {lex : Lexicon} (h : ofText text = .ok lex) :
    lex.size ≤ text.length := by
  have hcount := count_readText_le size empty text fun lex _ hspeaks => size_readLine_le lex hspeaks
  rw [ofText_eq_ok_iff.1 h] at hcount
  exact hcount.trans (Nat.le_of_eq (Nat.zero_add _))

end Lexicon

namespace Store

variable {realm dsl : String} {size : Nat}

/-- A store takes a text with the count that its kind of source gives it. -/
theorem check_iff {s : Store} : s.check dsl = .ok size ↔ s.kind.measure dsl = .ok size := by
  rw [check]
  cases s.kind.measure dsl <;> simp [Except.mapError]

/-- A store of grammars takes what is read as a grammar, and counts its rules. -/
theorem check_grammar_iff : (Store.mk .grammar realm).check dsl = .ok size ↔
    ∃ g, Grammar.ofText dsl = .ok g ∧ g.rules.length = size := by
  rw [check_iff, SourceKind.measure]
  cases Grammar.ofText dsl <;> simp

/-- A store of lexicons takes what is read as a lexicon, and counts its readings. -/
theorem check_lexicon_iff : (Store.mk .lexicon realm).check dsl = .ok size ↔
    ∃ lex, Lexicon.ofText dsl = .ok lex ∧ lex.size = size := by
  rw [check_iff, SourceKind.measure]
  cases Lexicon.ofText dsl <;> simp

/-- A text counts for no more than its characters. -/
theorem size_le_of_check {s : Store} (h : s.check dsl = .ok size) : size ≤ dsl.length := by
  obtain ⟨kind, realm⟩ := s
  cases kind with
  | grammar =>
    obtain ⟨g, hread, rfl⟩ := check_grammar_iff.1 h
    exact Grammar.length_rules_le hread
  | lexicon =>
    obtain ⟨lex, hread, rfl⟩ := check_lexicon_iff.1 h
    exact Lexicon.size_le hread
  | bare => cases h

end Store

end Earley
