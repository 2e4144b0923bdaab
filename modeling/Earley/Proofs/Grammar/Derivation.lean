import Earley.Lexicon
import Earley.Proofs.Grammar.Index
import Mathlib.Logic.Relation

namespace Earley

/-- A member of a sentential form: a symbol that is still to be derived, or a word. -/
inductive Piece where
  | symbol (s : Symbol)
  | word (w : String)
deriving DecidableEq

/-- Whether a word has a reading with the given tag. -/
def Lexicon.Tags (lex : Lexicon) (tag : Symbol) (word : String) : Prop :=
  tag.isTag = true ∧ ∃ r ∈ lex.lookup word, r.pos = tag

namespace Grammar

/-- One step of a derivation, in any place of a sentential form. -/
inductive Rewrites (g : Grammar) (lex : Lexicon) : List Piece → List Piece → Prop where
  | expand (front back : List Piece) {rule : Rule} (hrule : rule ∈ g.rules) :
    Rewrites g lex (front ++ .symbol rule.lhs :: back) (front ++ rule.rhs.map .symbol ++ back)
  | read (front back : List Piece) {tag : Symbol} {word : String} (htag : lex.Tags tag word) :
    Rewrites g lex (front ++ .symbol tag :: back) (front ++ .word word :: back)

/-- Any number of steps. -/
def Derives (g : Grammar) (lex : Lexicon) : List Piece → List Piece → Prop :=
  Relation.ReflTransGen (g.Rewrites lex)

/-- A sentential form covers the tokens from one place to before another. -/
inductive Covers (g : Grammar) (lex : Lexicon) (tokens : List String) :
    List Piece → Nat → Nat → Prop where
  | nil {i : Nat} (hi : i ≤ tokens.length) : Covers g lex tokens [] i i
  | word {w : String} {rest : List Piece} {i j : Nat} (hword : tokens[i]? = some w)
    (hrest : Covers g lex tokens rest (i + 1) j) : Covers g lex tokens (.word w :: rest) i j
  | tag {tag : Symbol} {w : String} {rest : List Piece} {i j : Nat} (hword : tokens[i]? = some w)
    (htag : lex.Tags tag w) (hrest : Covers g lex tokens rest (i + 1) j) :
    Covers g lex tokens (.symbol tag :: rest) i j
  | rule {rule : Rule} {rest : List Piece} {i k j : Nat} (hrule : rule ∈ g.rules)
    (hrhs : Covers g lex tokens (rule.rhs.map .symbol) i k) (hrest : Covers g lex tokens rest k j) :
    Covers g lex tokens (.symbol rule.lhs :: rest) i j

/-- A symbol that begins at one place may have another begin at a second place: the second stands
in what the first expands to, and all before it covers the tokens between. -/
inductive Opens (g : Grammar) (lex : Lexicon) (tokens : List String) (target : Symbol) (j : Nat) :
    Symbol → Nat → Prop where
  | refl : Opens g lex tokens target j target j
  | step {rule : Rule} {front back : List Symbol} {s : Symbol} {i k : Nat} (hrule : rule ∈ g.rules)
    (hrhs : rule.rhs = front ++ s :: back) (hfront : g.Covers lex tokens (front.map .symbol) i k)
    (hnext : Opens g lex tokens target j s k) : Opens g lex tokens target j rule.lhs i

variable {g : Grammar} {lex : Lexicon} {tokens : List String}

/-- The left side of every rule is a category. -/
theorem isCategory_of_mem {rule : Rule} (hrule : rule ∈ g.rules) : rule.lhs.isCategory = true :=
  (g.proper rule hrule).1

/-- No rule has an empty right side. -/
theorem rhs_ne_nil_of_mem {rule : Rule} (hrule : rule ∈ g.rules) : rule.rhs ≠ [] :=
  (g.proper rule hrule).2

private theorem Rewrites.frame {a b : List Piece} (h : g.Rewrites lex a b) (front back : List Piece) :
    g.Rewrites lex (front ++ a ++ back) (front ++ b ++ back) := by
  cases h with
  | expand left right hrule =>
    have hstep : g.Rewrites lex _ _ := .expand (front ++ left) (right ++ back) hrule
    simpa using hstep
  | read left right htag =>
    have hstep : g.Rewrites lex _ _ := .read (front ++ left) (right ++ back) htag
    simpa using hstep

theorem Derives.refl (a : List Piece) : g.Derives lex a a :=
  Relation.ReflTransGen.refl

/-- Derivations can be put one behind the other. -/
theorem Derives.trans {a b c : List Piece} (hab : g.Derives lex a b) (hbc : g.Derives lex b c) :
    g.Derives lex a c :=
  Relation.ReflTransGen.trans hab hbc

private theorem Derives.frame {a b : List Piece} (h : g.Derives lex a b) (front back : List Piece) :
    g.Derives lex (front ++ a ++ back) (front ++ b ++ back) :=
  Relation.ReflTransGen.lift (fun form => front ++ form ++ back)
    (fun _ _ hstep => Rewrites.frame hstep front back) _ _ h

/-- Two forms side by side derive what each of them derives. -/
theorem Derives.append {a a' b b' : List Piece} (ha : g.Derives lex a a') (hb : g.Derives lex b b') :
    g.Derives lex (a ++ b) (a' ++ b') := by
  have hleft : g.Derives lex (a ++ b) (a' ++ b) := by simpa using ha.frame [] b
  have hright : g.Derives lex (a' ++ b) (a' ++ b') := by simpa using hb.frame a' []
  exact hleft.trans hright

/-- The left side of a rule derives its right side. -/
theorem Derives.of_rule {rule : Rule} (hrule : rule ∈ g.rules) :
    g.Derives lex [.symbol rule.lhs] (rule.rhs.map .symbol) := by
  have hstep : g.Rewrites lex _ _ := .expand [] [] hrule
  exact Relation.ReflTransGen.single (by simpa using hstep)

/-- A tag derives every word that has it. -/
theorem Derives.of_tag {tag : Symbol} {word : String} (htag : lex.Tags tag word) :
    g.Derives lex [.symbol tag] [.word word] :=
  Relation.ReflTransGen.single (Rewrites.read [] [] htag)

/-- What is covered does not end before it begins. -/
theorem Covers.le {form : List Piece} {i j : Nat} (h : g.Covers lex tokens form i j) : i ≤ j := by
  induction h with
  | nil _ => exact Nat.le_refl _
  | word _ _ ih => omega
  | tag _ _ _ ih => omega
  | rule _ _ _ ih₁ ih₂ => omega

/-- What is covered ends within the sentence. -/
theorem Covers.le_length {form : List Piece} {i j : Nat} (h : g.Covers lex tokens form i j) :
    j ≤ tokens.length := by
  induction h with
  | nil hi => exact hi
  | word _ _ ih => exact ih
  | tag _ _ _ ih => exact ih
  | rule _ _ _ _ ih => exact ih

/-- No right-hand side is empty, so that a form covers at least as many tokens as it has members. -/
theorem Covers.length_le {form : List Piece} {i j : Nat} (h : g.Covers lex tokens form i j) :
    i + form.length ≤ j := by
  induction h with
  | nil _ => simp
  | word _ _ ih => simp only [List.length_cons]; omega
  | tag _ _ _ ih => simp only [List.length_cons]; omega
  | rule hrule _ _ ih₁ ih₂ =>
    have hpos := List.length_pos_iff.2 (rhs_ne_nil_of_mem hrule)
    simp only [List.length_map] at ih₁
    simp only [List.length_cons]
    omega

/-- The empty form covers the empty stretches of the sentence, and nothing else. -/
theorem covers_nil {i j : Nat} : g.Covers lex tokens [] i j ↔ i = j ∧ j ≤ tokens.length := by
  constructor
  · intro h
    cases h with
    | nil hi => exact ⟨rfl, hi⟩
  · rintro ⟨rfl, hi⟩
    exact .nil hi

/-- Two forms that cover neighbouring stretches cover both together. -/
theorem Covers.append {a b : List Piece} {i k j : Nat} (ha : g.Covers lex tokens a i k)
    (hb : g.Covers lex tokens b k j) : g.Covers lex tokens (a ++ b) i j := by
  induction ha with
  | nil _ => exact hb
  | word hword _ ih => exact .word hword (ih hb)
  | tag hword htag _ ih => exact .tag hword htag (ih hb)
  | rule hrule hrhs _ _ ih => exact .rule hrule hrhs (ih hb)

/-- Two forms side by side cover a stretch exactly if it can be cut in two that they cover. -/
theorem covers_append {a b : List Piece} {i j : Nat} :
    g.Covers lex tokens (a ++ b) i j ↔
      ∃ k, g.Covers lex tokens a i k ∧ g.Covers lex tokens b k j := by
  constructor
  · intro h
    induction a generalizing i with
    | nil => exact ⟨i, .nil (Nat.le_trans h.le h.le_length), h⟩
    | cons piece rest ih =>
      rw [List.cons_append] at h
      cases h with
      | word hword hrest =>
        obtain ⟨k, hleft, hright⟩ := ih hrest
        exact ⟨k, .word hword hleft, hright⟩
      | tag hword htag hrest =>
        obtain ⟨k, hleft, hright⟩ := ih hrest
        exact ⟨k, .tag hword htag hleft, hright⟩
      | rule hrule hrhs hrest =>
        obtain ⟨k, hleft, hright⟩ := ih hrest
        exact ⟨k, .rule hrule hrhs hleft, hright⟩
  · rintro ⟨k, ha, hb⟩
    exact ha.append hb

/-- The left side of a rule covers what its right side covers. -/
theorem Covers.of_rule {rule : Rule} {i j : Nat} (hrule : rule ∈ g.rules)
    (h : g.Covers lex tokens (rule.rhs.map .symbol) i j) :
    g.Covers lex tokens [.symbol rule.lhs] i j :=
  .rule hrule h (.nil h.le_length)

/-- A tag covers a word that has it. -/
theorem Covers.of_tag {tag : Symbol} {w : String} {i : Nat} (hword : tokens[i]? = some w)
    (htag : lex.Tags tag w) : g.Covers lex tokens [.symbol tag] i (i + 1) :=
  .tag hword htag (.nil (List.getElem?_eq_some_iff.1 hword).1)

/-- A step backwards keeps the span. -/
theorem Rewrites.covers {a b : List Piece} (h : g.Rewrites lex a b) {i j : Nat}
    (hb : g.Covers lex tokens b i j) : g.Covers lex tokens a i j := by
  cases h with
  | expand front back hrule =>
    rw [List.append_assoc, covers_append] at hb
    obtain ⟨k, hfront, hrest⟩ := hb
    obtain ⟨m, hrhs, hback⟩ := covers_append.1 hrest
    exact hfront.append (.rule hrule hrhs hback)
  | read front back htag =>
    obtain ⟨k, hfront, hrest⟩ := covers_append.1 hb
    cases hrest with
    | word hword hback => exact hfront.append (.tag hword htag hback)

/-- What is derived from a form does not cover more than the form does. -/
theorem Derives.covers {a b : List Piece} (h : g.Derives lex a b) {i j : Nat}
    (hb : g.Covers lex tokens b i j) : g.Covers lex tokens a i j := by
  induction h using Relation.ReflTransGen.head_induction_on with
  | refl => exact hb
  | head hstep _ ih => exact hstep.covers ih

/-- A stretch of the sentence begins with its first word. -/
theorem slice_cons {i j : Nat} {w : String} (hword : tokens[i]? = some w) (hij : i < j) :
    (tokens.take j).drop i = w :: (tokens.take j).drop (i + 1) := by
  obtain ⟨hi, hget⟩ := List.getElem?_eq_some_iff.1 hword
  rw [List.drop_eq_getElem_cons (by simp; omega)]
  simp [hget]

/-- Neighbouring stretches of the sentence make up the stretch from the first to the end of the second. -/
theorem slice_append {i k j : Nat} (hik : i ≤ k) (hkj : k ≤ j) (hj : j ≤ tokens.length) :
    (tokens.take k).drop i ++ (tokens.take j).drop k = (tokens.take j).drop i := by
  have hsplit : tokens.take j = tokens.take k ++ (tokens.take j).drop k := by
    have h := (List.take_append_drop k (tokens.take j)).symm
    rwa [List.take_take, Nat.min_eq_left hkj] at h
  have hcut := congrArg (List.drop i) hsplit
  rwa [List.drop_append_of_le_length (by simp; omega), eq_comm] at hcut

private theorem covers_words {i j : Nat} (hij : i ≤ j) (hj : j ≤ tokens.length) :
    g.Covers lex tokens (((tokens.take j).drop i).map .word) i j := by
  obtain ⟨d, rfl⟩ := Nat.exists_eq_add_of_le hij
  induction d generalizing i with
  | zero => simpa using Covers.nil hj
  | succ d ih =>
    have hword : tokens[i]? = some tokens[i] := List.getElem?_eq_getElem (by omega)
    rw [slice_cons hword (by omega), List.map_cons]
    refine .word hword ?_
    have hrest := ih (i := i + 1) (by omega) (by omega)
    simpa only [Nat.add_assoc, Nat.add_comm 1 d] using hrest

/-- A form derives the words of every stretch that it covers. -/
theorem Covers.derives {form : List Piece} {i j : Nat} (h : g.Covers lex tokens form i j) :
    g.Derives lex form (((tokens.take j).drop i).map .word) := by
  induction h with
  | @nil i _ =>
    have hempty : (tokens.take i).drop i = [] := by simp
    rw [hempty]
    exact Derives.refl []
  | word hword hrest ih =>
    rw [slice_cons hword (by have := hrest.le; omega)]
    exact (Derives.refl [_]).append ih
  | tag hword htag hrest ih =>
    rw [slice_cons hword (by have := hrest.le; omega)]
    exact (Derives.of_tag htag).append ih
  | rule hrule hrhs hrest ih₁ ih₂ =>
    rw [← slice_append hrhs.le hrest.le hrest.le_length, List.map_append]
    exact ((Derives.of_rule hrule).trans ih₁).append ih₂

/-- Deriving the tokens between two places is covering them. -/
theorem derives_words_iff {form : List Piece} {i j : Nat} (hij : i ≤ j) (hj : j ≤ tokens.length) :
    g.Derives lex form (((tokens.take j).drop i).map .word) ↔ g.Covers lex tokens form i j :=
  ⟨fun h => h.covers (covers_words hij hj), Covers.derives⟩

/-- A symbol opens nothing before the place where it begins. -/
theorem Opens.le {target s : Symbol} {i j : Nat} (h : g.Opens lex tokens target j s i) : i ≤ j := by
  induction h with
  | refl => exact Nat.le_refl _
  | step _ _ hfront _ ih => exact Nat.le_trans hfront.le ih

/-- A symbol that opens one that opens another opens that one too. -/
theorem Opens.trans {a b c : Symbol} {i j k : Nat} (hab : g.Opens lex tokens b j a i)
    (hbc : g.Opens lex tokens c k b j) : g.Opens lex tokens c k a i := by
  induction hab with
  | refl => exact hbc
  | step hrule hrhs hfront _ ih => exact .step hrule hrhs hfront ih

/-- A symbol that opens another derives the words up to it, that symbol and some more behind it. -/
theorem Opens.derives {target s : Symbol} {i j : Nat} (h : g.Opens lex tokens target j s i)
    (hj : j ≤ tokens.length) :
    ∃ back : List Symbol, g.Derives lex [.symbol s]
      (((tokens.take j).drop i).map .word ++ .symbol target :: back.map .symbol) := by
  induction h with
  | refl =>
    have hempty : (tokens.take j).drop j = [] := by simp
    rw [hempty]
    exact ⟨[], Derives.refl _⟩
  | @step rule front back s i k hrule hrhs hfront hnext ih =>
    obtain ⟨rest, hrest⟩ := ih
    refine ⟨rest ++ back, ?_⟩
    have hexpand : g.Derives lex _ _ := Derives.of_rule hrule
    rw [hrhs] at hexpand
    have hback : g.Derives lex (back.map .symbol) _ := Derives.refl _
    have hparts := hfront.derives.append (hrest.append hback)
    rw [← slice_append hfront.le hnext.le hj]
    exact hexpand.trans (by simpa using hparts)

/-- Whether a form has a symbol that opens the target where all before that symbol ends. -/
private def Leads (g : Grammar) (lex : Lexicon) (tokens : List String) (target : Symbol) (j : Nat)
    (form : List Piece) : Prop :=
  ∃ (front back : List Piece) (s : Symbol) (i : Nat), form = front ++ .symbol s :: back ∧
    g.Covers lex tokens front 0 i ∧ g.Opens lex tokens target j s i

private theorem split_at_member {a b front back : List Piece} {x : Piece}
    (h : a ++ b = front ++ x :: back) :
    (∃ m, a = front ++ x :: m ∧ back = m ++ b) ∨ ∃ m, front = a ++ m ∧ b = m ++ x :: back := by
  rcases List.append_eq_append_iff.1 h with hlate | ⟨m, ha, hx⟩
  · exact .inr hlate
  · cases m with
    | nil => exact .inr ⟨[], by simpa using ha.symm, by simpa using hx.symm⟩
    | cons y m =>
      obtain ⟨rfl, hback⟩ := List.cons.inj hx
      exact .inl ⟨m, ha, hback⟩

private theorem Rewrites.leads {a b : List Piece} (h : g.Rewrites lex a b) {target : Symbol}
    {j : Nat} (hb : Leads g lex tokens target j b) : Leads g lex tokens target j a := by
  obtain ⟨front, back, s, i, hform, hfront, hopens⟩ := hb
  cases h with
  | @expand left right rule hrule =>
    rw [List.append_assoc] at hform
    rcases split_at_member hform with ⟨m, rfl, _⟩ | ⟨m, rfl, hrest⟩
    · exact ⟨front, m ++ .symbol rule.lhs :: right, s, i, by simp, hfront, hopens⟩
    · obtain ⟨k, hleft, hm⟩ := covers_append.1 hfront
      rcases split_at_member hrest with ⟨m', hrhs, _⟩ | ⟨m', rfl, rfl⟩
      · -- The symbol stands in what the rule expands to, so that its left-hand side opens it.
        obtain ⟨before, after, hsplit, rfl, hafter⟩ := List.map_eq_append_iff.1 hrhs
        obtain ⟨s', after', rfl, hs, _⟩ := List.map_eq_cons_iff.1 hafter
        obtain rfl := Piece.symbol.inj hs
        exact ⟨left, right, _, k, rfl, hleft, .step hrule hsplit hm hopens⟩
      · obtain ⟨k', hrhs, hm'⟩ := covers_append.1 hm
        exact ⟨left ++ .symbol rule.lhs :: m', back, s, i, by simp, hleft.append (.rule hrule hrhs hm'),
          hopens⟩
  | @read left right tag word htag =>
    rcases split_at_member hform with ⟨m, rfl, _⟩ | ⟨m, rfl, hrest⟩
    · exact ⟨front, m ++ .symbol tag :: right, s, i, by simp, hfront, hopens⟩
    · cases m with
      | nil => simp at hrest
      | cons piece m =>
        obtain ⟨rfl, rfl⟩ := List.cons.inj hrest
        obtain ⟨k, hleft, hm⟩ := covers_append.1 hfront
        cases hm with
        | word hword hm =>
          exact ⟨left ++ .symbol tag :: m, back, s, i, by simp, hleft.append (.tag hword htag hm),
            hopens⟩

private theorem Derives.leads {a b : List Piece} (h : g.Derives lex a b) {target : Symbol}
    {j : Nat} (hb : Leads g lex tokens target j b) : Leads g lex tokens target j a := by
  induction h using Relation.ReflTransGen.head_induction_on with
  | refl => exact hb
  | head hstep _ ih => exact hstep.leads ih

/-- A symbol may begin after some tokens exactly when a derivation from the first symbol gives these
tokens, then that symbol, and then any symbols. -/
theorem derives_before_iff {target s : Symbol} {j : Nat} (hj : j ≤ tokens.length) :
    (∃ back : List Symbol, g.Derives lex [.symbol s]
      ((tokens.take j).map .word ++ .symbol target :: back.map .symbol)) ↔
      g.Opens lex tokens target j s 0 := by
  constructor
  · rintro ⟨back, hderives⟩
    have hwords : g.Covers lex tokens ((tokens.take j).map .word) 0 j := by
      simpa using (covers_words (Nat.zero_le j) hj : g.Covers lex tokens _ 0 j)
    obtain ⟨front, rest, t, i, hform, hfront, hopens⟩ :=
      hderives.leads ⟨_, _, target, j, rfl, hwords, .refl⟩
    cases front with
    | nil =>
      obtain ⟨ht, _⟩ := List.cons.inj hform
      obtain rfl := Piece.symbol.inj ht
      obtain ⟨rfl, _⟩ := covers_nil.1 hfront
      exact hopens
    | cons piece front => simp at hform
  · intro hopens
    simpa using hopens.derives hj

end Grammar

end Earley
