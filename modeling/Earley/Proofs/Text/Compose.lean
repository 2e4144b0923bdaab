import Earley.Proofs.Grammar.Syntax
import Earley.Proofs.Lexicon.Syntax
import Earley.Proofs.Text.Faults

namespace Earley

namespace Text

variable {σ ε : Type} {read : σ → List Char → σ × Option ε} {ls ls' : List (List Char)}

private theorem lines_append (cs ds : List Char) : lines (cs ++ '\n' :: ds) = lines cs ++ lines ds :=
  pieces_append_cons cs ds rfl

/-- Lines are read without a fault just if each one is passed over. -/
theorem readLinesFrom_none_iff (hread : Stateless read) (number : Nat) (state : σ) :
    (readLinesFrom read number state ls).2 = none ↔ ∀ raw ∈ ls, Passed read raw := by
  induction ls generalizing number state with
  | nil => simp [readLinesFrom]
  | cons raw rest ih =>
    rw [readLinesFrom, List.forall_mem_cons]
    split
    · next hsilent => rw [ih, and_iff_right (.inl hsilent)]
    · next hspeaks =>
      split
      · next next heq =>
        have hpassed : Passed read raw := .inr fun state' => by rw [hread state' state, heq]
        rw [ih, and_iff_right hpassed]
      · next next cause heq =>
        constructor
        · intro h
          cases h
        · rintro ⟨hpassed, -⟩
          have haccepted := hpassed.resolve_left hspeaks state
          rw [heq] at haccepted
          cases haccepted

/-- Where lines are passed over, those behind them are read from where they end. -/
theorem readLinesFrom_append {number : Nat} {state next : σ}
    (h : readLinesFrom read number state ls = (next, none)) :
    readLinesFrom read number state (ls ++ ls') = readLinesFrom read (number + ls.length) next ls' := by
  induction ls generalizing number state with
  | nil =>
    cases h
    rfl
  | cons raw rest ih =>
    have hnumber : number + (raw :: rest).length = number + 1 + rest.length := by
      rw [List.length_cons]
      omega
    rw [readLinesFrom] at h
    rw [List.cons_append, readLinesFrom, hnumber]
    split at h
    · next hsilent => rw [if_pos hsilent, ih h]
    · next hspeaks =>
      rw [if_neg hspeaks]
      split at h
      · exact ih h
      · cases h

/-- What two states have to do with each other, and keep line by line, holds where the lines end. -/
theorem readLinesFrom_related {related : σ → σ → Prop}
    (hstep : ∀ s t line, related s t → related (read s line).1 (read t line).1)
    {number number' : Nat} {s s' t t' : σ} (hs : readLinesFrom read number s ls = (s', none))
    (ht : readLinesFrom read number' t ls = (t', none)) (h : related s t) : related s' t' := by
  induction ls generalizing number number' s t with
  | nil =>
    cases hs
    cases ht
    exact h
  | cons raw rest ih =>
    rw [readLinesFrom] at hs ht
    split at hs
    · next hsilent =>
      rw [if_pos hsilent] at ht
      exact ih hs ht h
    · next hspeaks =>
      rw [if_neg hspeaks] at ht
      have hnext := hstep s t (trim raw) h
      split at hs
      · next next heq =>
        rw [heq] at hnext
        split at ht
        · next next' heq' =>
          rw [heq'] at hnext
          exact ih hs ht hnext
        · cases ht
      · cases hs

/-- The first fault stays the first one, whatever stands behind it. -/
theorem FirstFault.append {i : Nat} {line : List Char} {cause : ε} (h : FirstFault read ls i line cause) :
    FirstFault read (ls ++ ls') i line cause := by
  have hlt : i < ls.length := by
    obtain ⟨raw, hraw, -⟩ := Option.map_eq_some_iff.1 h.trimmed
    exact (List.getElem?_eq_some_iff.1 hraw).1
  refine ⟨?_, h.speaks, h.rejected, fun j hj raw hraw => h.first j hj raw ?_⟩
  · rw [List.getElem?_append_left hlt]
    exact h.trimmed
  · rwa [List.getElem?_append_left (hj.trans hlt)] at hraw

/-- Blank lines come to an end at a line that says something. -/
theorem blankLines_append {raw : List Char} (hraw : raw ∈ ls) (hspeaks : isSilent (trim raw) = false) :
    blankLines (ls ++ ls') = blankLines ls := by
  have hnot : ¬(ls.takeWhile fun raw => (trim raw).isEmpty).length = ls.length := by
    intro hlength
    have hall := List.takeWhile_eq_self_iff.1 ((List.takeWhile_prefix _).eq_of_length hlength) raw hraw
    rw [List.isEmpty_iff.1 hall] at hspeaks
    cases hspeaks
  rw [blankLines, blankLines, List.takeWhile_append, if_neg hnot]

/-- How a text that is put together is read: it can be read just if its parts can, and then says what
they say, one joined to the other; the fault of the part on top is its own. -/
structure Composes (ofText : String → Except (LineFault ε) σ) (Joined : σ → σ → σ → Prop)
    (a b : String) : Prop where
  ok : (∃ s, ofText (a ++ "\n" ++ b) = .ok s) ↔ (∃ s, ofText a = .ok s) ∧ ∃ s, ofText b = .ok s
  joined : ∀ sa sb s, ofText a = .ok sa → ofText b = .ok sb → ofText (a ++ "\n" ++ b) = .ok s →
    Joined sa sb s
  error : ∀ f, ofText a = .error f → ofText (a ++ "\n" ++ b) = .error f

private theorem toList_below (a b : String) : (a ++ "\n" ++ b).toList = a.toList ++ '\n' :: b.toList := by
  simp

/-- A text can be read just if each of its lines is passed over. -/
theorem readText_none_iff (hread : Stateless read) (initial : σ) (text : String) :
    (readText read initial text).2 = none ↔ ∀ raw ∈ lines text.toList, Passed read raw := by
  have hlines : (∃ last, readText read initial text = (last, none)) ↔
      ∃ last, readLinesFrom read 1 initial (lines text.toList) = (last, none) :=
    exists_congr fun last => readText_eq_none_iff
  have hsnd (p : σ × Option (LineFault ε)) : p.2 = none ↔ ∃ last, p = (last, none) := by
    simp [Prod.ext_iff]
  rw [hsnd, hlines, ← hsnd, readLinesFrom_none_iff hread]

variable {initial : σ} {ofText : String → Except (LineFault ε) σ} {Joined : σ → σ → σ → Prop}

/-- A text is read as it should be if no line looks at what is there and each one adds to it. -/
theorem composes_of_stateless (hread : Stateless read)
    (hok : ∀ text s, ofText text = .ok s ↔ readText read initial text = (s, none))
    (herror : ∀ text f, ofText text = .error f ↔ (readText read initial text).2 = some f)
    (hstart : ∀ s, Joined s initial s)
    (hstep : ∀ line sa s t, Joined sa t s → Joined sa (read t line).1 (read s line).1)
    (a b : String) : Composes ofText Joined a b where
  ok := by
    have hpassed (text : String) :
        (∃ s, ofText text = .ok s) ↔ ∀ raw ∈ lines text.toList, Passed read raw := by
      rw [← readText_none_iff hread initial]
      simp [hok, Prod.ext_iff]
    rw [hpassed, hpassed, hpassed, toList_below, lines_append, List.forall_mem_append]
  joined := by
    intro sa sb s ha hb hab
    rw [hok, readText_eq_none_iff] at ha hb hab
    rw [toList_below, lines_append, readLinesFrom_append ha] at hab
    exact readLinesFrom_related (fun t s line h => hstep line sa s t h) hb hab (hstart sa)
  error := by
    intro f ha
    rw [herror, readText_fault_iff hread] at ha ⊢
    obtain ⟨i, hfault, hpos, hnumber⟩ := ha
    obtain ⟨raw, hraw, htrim⟩ := Option.map_eq_some_iff.1 hfault.trimmed
    have hspeaks : isSilent (trim raw) = false := htrim ▸ hfault.speaks
    rw [toList_below, lines_append]
    refine ⟨i, hfault.append, hpos, ?_⟩
    rw [blankLines_append (List.mem_of_getElem? hraw) hspeaks]
    exact hnumber

end Text

open Text

namespace Grammar

/-- The rules of a grammar, and behind them those of another. -/
def Joined (ga gb g : Grammar) : Prop := g.rules = ga.rules ++ gb.rules

/-- The rules that alternatives add are the same for every grammar. -/
theorem exists_rules_addAlternatives (lhs : Symbol) (weight : Weight) (parts : List (List Char)) :
    ∃ rs, ∀ g, (addAlternatives lhs weight g parts).1.rules = g.rules ++ rs := by
  by_cases hlhs : lhs.isCategory = true
  · exact ⟨_, fun g => (addAlternatives_of_isCategory hlhs weight g parts).1⟩
  · refine ⟨[], fun g => ?_⟩
    rw [List.append_nil]
    by_cases hparts : parts = []
    · rw [hparts, addAlternatives]
    · obtain ⟨fault, hadd⟩ := addAlternatives_of_not_isCategory (by simpa using hlhs) weight g hparts
      rw [hadd]

/-- So are those that a line adds. -/
theorem exists_rules_readLine (line : List Char) :
    ∃ rs, ∀ g, (readLine g line).1.rules = g.rules ++ rs := by
  have hbody (body : List Char) (weight : Weight) :
      ∃ rs, ∀ g, (readBody g body weight).1.rules = g.rules ++ rs := by
    cases harrow : splitArrow? body with
    | none => exact ⟨[], fun g => by rw [readBody, harrow, List.append_nil]⟩
    | some sides =>
      obtain ⟨left, right⟩ := sides
      by_cases hword : isWord (trim left) = true
      · obtain ⟨rs, hrs⟩ := exists_rules_addAlternatives (String.ofList (trim left)) weight
          (pieces (· == '|') right)
        refine ⟨rs, fun g => ?_⟩
        rw [readBody, harrow]
        dsimp only
        rw [if_pos hword, hrs]
      · refine ⟨[], fun g => ?_⟩
        rw [readBody, harrow]
        dsimp only
        rw [if_neg hword, List.append_nil]
  cases hsplit : splitWeight? line with
  | none =>
    obtain ⟨rs, hrs⟩ := hbody line Binary64.one
    exact ⟨rs, fun g => by rw [readLine_bare hsplit, hrs]⟩
  | some parts =>
    obtain ⟨rs, hrs⟩ := hbody parts.1 parts.2.toBinary64
    exact ⟨rs, fun g => by rw [readLine_weighted hsplit, hrs]⟩

/-- A grammar that continues another one does so after every line. -/
theorem Joined.readLine {ga gb g : Grammar} (h : Joined ga gb g) (line : List Char) :
    Joined ga (readLine gb line).1 (readLine g line).1 := by
  obtain ⟨rs, hrs⟩ := exists_rules_readLine line
  rw [Joined] at h ⊢
  rw [hrs, hrs, h, List.append_assoc]

end Grammar

namespace Lexicon

/-- The readings of a lexicon, and behind those of each word the readings that another has of it. -/
structure Joined (la lb lex : Lexicon) : Prop where
  lookup : ∀ word, lex.lookup word = la.lookup word ++ lb.lookup word
  size : lex.size = la.size + lb.size

/-- A line leaves all lexicons as they are, or all of them gain the same reading. -/
theorem readLine_gains_or (line : List Char) :
    (∀ lex, (readLine lex line).1 = lex) ∨ ∃ r, ∀ lex : Lexicon, lex.Gains r (readLine lex line).1 := by
  cases hsplit : splitLine? line with
  | none => exact .inl fun lex => by rw [readLine, hsplit]
  | some parts =>
    obtain ⟨word, pos, rest⟩ := parts
    cases hread : readItems [] none (items rest) with
    | error fault =>
      refine .inl fun lex => ?_
      rw [readLine, hsplit]
      dsimp only
      rw [hread]
    | ok found =>
      obtain ⟨features, baseForm?⟩ := found
      obtain ⟨r, hr⟩ := exists_gains_add (String.ofList word) (String.ofList pos) features baseForm?
      refine .inr ⟨r, fun lex => ?_⟩
      rw [readLine, hsplit]
      dsimp only
      rw [hread]
      exact hr lex

/-- A lexicon that continues another one does so after every line. -/
theorem Joined.readLine {la lb lex : Lexicon} (h : Joined la lb lex) (line : List Char) :
    Joined la (readLine lb line).1 (readLine lex line).1 := by
  rcases readLine_gains_or line with hsame | ⟨r, hgains⟩
  · rwa [hsame, hsame]
  · refine ⟨fun word => ?_, ?_⟩
    · rw [(hgains lex).lookup, (hgains lb).lookup, h.lookup]
      split
      · rw [List.append_assoc]
      · rfl
    · rw [(hgains lex).size_eq, (hgains lb).size_eq, h.size, Nat.add_assoc]

end Lexicon

/-- A text below another is read on top of it: the rules of both, the readings of both under each word,
and the fault of the first where there is one. -/
theorem Text.ofText_composes (a b : String) :
    Composes Grammar.ofText Grammar.Joined a b ∧ Composes Lexicon.ofText Lexicon.Joined a b := by
  constructor
  · exact composes_of_stateless Grammar.readLine_stateless
      (fun _ _ => Grammar.ofText_eq_ok_iff) (fun _ _ => Grammar.ofText_eq_error_iff)
      (fun _ => (List.append_nil _).symm) (fun line _ _ _ h => h.readLine line) a b
  · exact composes_of_stateless Lexicon.readLine_stateless
      (fun _ _ => Lexicon.ofText_eq_ok_iff) (fun _ _ => Lexicon.ofText_eq_error_iff)
      (fun _ => ⟨fun _ => (List.append_nil _).symm, rfl⟩) (fun line _ _ _ h => h.readLine line) a b

end Earley
