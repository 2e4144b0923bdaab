import Earley.Tree
import Earley.Proofs.Grammar.Derivation
import Mathlib.Data.Nat.Find

namespace Earley

open Grammar

namespace Tree

section

variable (s : Symbol) (word : Option String) (children : List Tree) (span : Int × Int)
  (reading : Option Reading)

@[simp] theorem symbol_leaf : (leaf s word span reading).symbol = s := rfl

@[simp] theorem children_leaf : (leaf s word span reading).children = [] := rfl

@[simp] theorem span_leaf : (leaf s word span reading).span = span := rfl

@[simp] theorem symbol_branch : (branch s children span).symbol = s := rfl

@[simp] theorem children_branch : (branch s children span).children = children := rfl

@[simp] theorem span_branch : (branch s children span).span = span := rfl

end

/-- The trees stand side by side, from `i` to before `j`. -/
def Adjoining : Int → List Tree → Int → Prop
  | i, [], j => i = j
  | i, t :: rest, j => t.span.1 = i ∧ Adjoining t.span.2 rest j

/-- A tree whose leaves are readings of the tokens that they stand over, and whose other nodes are
expansions by rules of the grammar. -/
inductive Derivation (g : Grammar) (lex : Lexicon) (tokens : List String) : Tree → Prop where
  | word {i : Nat} {w : String} {r : Reading} (hword : tokens[i]? = some w)
    (hr : r ∈ lex.lookup w) (htag : Symbol.isTag r.pos = true) :
    Derivation g lex tokens (.leaf r.pos (some w) (i, i + 1) (some r))
  | rule {rule : Rule} {children : List Tree} {i j : Int} (hrule : rule ∈ g.rules)
    (hrhs : children.map symbol = rule.rhs) (hspan : Adjoining i children j)
    (hchildren : ∀ t ∈ children, Derivation g lex tokens t) :
    Derivation g lex tokens (.branch rule.lhs children (i, j))

/-- What a node does: its symbol, the symbols that it expands to, and its span. -/
def expansion (t : Tree) : Symbol × List Symbol × Int × Int :=
  (t.symbol, t.children.map symbol, t.span)

/-- No node does what a node above it does. -/
def Acyclic (t : Tree) : Prop :=
  ∀ a ∈ t.walk, ∀ b ∈ walkAll a.children, b.expansion ≠ a.expansion

/-- No node does what a node above it does, nor any of the given expansions. -/
def Avoids (above : List (Symbol × List Symbol × Int × Int)) (t : Tree) : Prop :=
  t.Acyclic ∧ ∀ a ∈ t.walk, a.expansion ∉ above

private theorem walkAll_eq (ts : List Tree) : walkAll ts = ts.flatMap walk := by
  induction ts with
  | nil => rfl
  | cons t rest ih => rw [walkAll, ih, List.flatMap_cons]

private theorem walk_eq (t : Tree) : t.walk = t :: walkAll t.children := by
  cases t
  rw [walk]
  rfl

/-- A walk through a row meets the nodes of all its trees. -/
theorem mem_walkAll {b : Tree} {ts : List Tree} : b ∈ walkAll ts ↔ ∃ t ∈ ts, b ∈ t.walk := by
  rw [walkAll_eq, List.mem_flatMap]

/-- A walk through a tree meets the tree itself and the nodes of its children. -/
theorem mem_walk {b t : Tree} : b ∈ t.walk ↔ b = t ∨ ∃ c ∈ t.children, b ∈ c.walk := by
  rw [walk_eq, List.mem_cons, mem_walkAll]

/-- A walk through a tree meets the tree itself. -/
theorem self_mem_walk (t : Tree) : t ∈ t.walk :=
  mem_walk.2 (.inl rfl)

private theorem acyclic_iff {t : Tree} : t.Acyclic ↔
    (∀ b ∈ walkAll t.children, b.expansion ≠ t.expansion) ∧ ∀ c ∈ t.children, c.Acyclic := by
  constructor
  · intro h
    exact ⟨h t (self_mem_walk t), fun c hc a ha => h a (mem_walk.2 (.inr ⟨c, hc, ha⟩))⟩
  · rintro ⟨hroot, hchildren⟩ a ha
    rcases mem_walk.1 ha with rfl | ⟨c, hc, hac⟩
    · exact hroot
    · exact hchildren c hc a hac

/-- Below a node its own expansion is to be avoided as well. -/
theorem avoids_iff {above : List (Symbol × List Symbol × Int × Int)} {t : Tree} :
    t.Avoids above ↔ t.expansion ∉ above ∧ ∀ c ∈ t.children, c.Avoids (t.expansion :: above) := by
  simp only [Avoids, acyclic_iff (t := t), List.mem_cons, not_or]
  constructor
  · rintro ⟨⟨hroot, hchildren⟩, habove⟩
    refine ⟨habove t (self_mem_walk t), fun c hc => ⟨hchildren c hc, fun a ha => ⟨?_, ?_⟩⟩⟩
    · exact hroot a (mem_walkAll.2 ⟨c, hc, ha⟩)
    · exact habove a (mem_walk.2 (.inr ⟨c, hc, ha⟩))
  · rintro ⟨hroot, hchildren⟩
    refine ⟨⟨fun b hb => ?_, fun c hc => (hchildren c hc).1⟩, fun a ha => ?_⟩
    · obtain ⟨c, hc, hbc⟩ := mem_walkAll.1 hb
      exact ((hchildren c hc).2 b hbc).1
    · rcases mem_walk.1 ha with rfl | ⟨c, hc, hac⟩
      · exact hroot
      · exact ((hchildren c hc).2 a hac).2

/-- A tree that has nothing to avoid is one without unit cycles. -/
theorem avoids_nil {t : Tree} : t.Avoids [] ↔ t.Acyclic := by
  simp [Avoids]

/-- A row of neighbours can be cut anywhere into two rows of neighbours. -/
theorem adjoining_append {i j : Int} {front back : List Tree} :
    Adjoining i (front ++ back) j ↔ ∃ k, Adjoining i front k ∧ Adjoining k back j := by
  induction front generalizing i with
  | nil => simp [Adjoining]
  | cons t rest ih => simp [Adjoining, ih, and_assoc]

variable {g : Grammar} {lex : Lexicon} {tokens : List String}

namespace Derivation

/-- Every node of a derivation is one. -/
theorem of_mem_walk {t : Tree} (h : Derivation g lex tokens t) :
    ∀ a ∈ t.walk, Derivation g lex tokens a := by
  induction h with
  | word hword hr htag =>
    intro a ha
    rcases mem_walk.1 ha with rfl | ⟨c, hc, _⟩
    · exact .word hword hr htag
    · cases hc
  | rule hrule hrhs hspan hchildren ih =>
    intro a ha
    rcases mem_walk.1 ha with rfl | ⟨c, hc, hac⟩
    · exact .rule hrule hrhs hspan hchildren
    · exact ih c hc a hac

/-- A tree whose symbol is a category is the expansion of a rule. -/
theorem exists_rule {t : Tree} (h : Derivation g lex tokens t)
    (hcategory : t.symbol.isCategory = true) :
    ∃ rule ∈ g.rules, ∃ i j, t = .branch rule.lhs t.children (i, j) ∧
      t.children.map symbol = rule.rhs ∧ Adjoining i t.children j ∧
        ∀ c ∈ t.children, Derivation g lex tokens c := by
  cases h with
  | word _ _ htag =>
    rw [Symbol.isTag, Bool.not_eq_true'] at htag
    rw [symbol_leaf, htag] at hcategory
    cases hcategory
  | rule hrule hrhs hspan hchildren => exact ⟨_, hrule, _, _, rfl, hrhs, hspan, hchildren⟩

/-- A tree whose symbol is a tag is a leaf over one token. -/
theorem exists_word {t : Tree} (h : Derivation g lex tokens t)
    (htag : t.symbol.isCategory = false) :
    ∃ (i : Nat) (w : String) (r : Reading), tokens[i]? = some w ∧ r ∈ lex.lookup w ∧
      r.pos = t.symbol ∧ t = .leaf r.pos (some w) (i, i + 1) (some r) := by
  cases h with
  | word hword hr _ => exact ⟨_, _, _, hword, hr, rfl, rfl⟩
  | rule hrule _ _ _ =>
    have hcategory := isCategory_of_mem hrule
    rw [symbol_branch, hcategory] at htag
    cases htag

/-- A row of derivation trees covers the tokens that it spans. -/
private theorem covers_row {ts : List Tree} (hcovers : ∀ t ∈ ts, ∃ i j : Nat, t.span = (↑i, ↑j) ∧
    g.Covers lex tokens [.symbol t.symbol] i j) {i : Nat} (hi : i ≤ tokens.length) {j : Int}
    (hspan : Adjoining i ts j) :
    ∃ k : Nat, j = k ∧ g.Covers lex tokens ((ts.map symbol).map .symbol) i k := by
  induction ts generalizing i with
  | nil => exact ⟨i, hspan.symm, .nil hi⟩
  | cons t rest ih =>
    obtain ⟨hstart, hrest⟩ := hspan
    obtain ⟨i', m, hspan', ht⟩ := hcovers t (by simp)
    rw [hspan'] at hstart hrest
    obtain rfl : i' = i := by simp only at hstart; omega
    obtain ⟨k, rfl, hk⟩ := ih (fun c hc => hcovers c (by simp [hc])) ht.le_length hrest
    exact ⟨k, rfl, ht.append hk⟩

/-- The symbol of a derivation tree covers the tokens that the tree spans. -/
theorem covers {t : Tree} (h : Derivation g lex tokens t) :
    ∃ i j : Nat, t.span = (↑i, ↑j) ∧ g.Covers lex tokens [.symbol t.symbol] i j := by
  induction h with
  | @word i w r hword hr htag =>
    exact ⟨i, i + 1, by simp, .of_tag hword ⟨htag, r, hr, rfl⟩⟩
  | @rule rule children i j hrule hrhs hspan _ ih =>
    cases children with
    | nil => exact absurd hrhs.symm (rhs_ne_nil_of_mem hrule)
    | cons t rest =>
      obtain ⟨i', m, hspan', ht⟩ := ih t (by simp)
      have hstart := hspan.1
      rw [hspan'] at hstart
      subst hstart
      obtain ⟨k, rfl, hk⟩ := covers_row ih (Nat.le_trans ht.le ht.le_length) hspan
      rw [hrhs] at hk
      exact ⟨i', k, rfl, .of_rule hrule hk⟩

/-- The symbols of a row of derivation trees cover the tokens that the row spans. -/
theorem covers_all {ts : List Tree} (h : ∀ t ∈ ts, Derivation g lex tokens t) {i : Nat}
    (hi : i ≤ tokens.length) {j : Int} (hspan : Adjoining i ts j) :
    ∃ k : Nat, j = k ∧ g.Covers lex tokens ((ts.map symbol).map .symbol) i k :=
  covers_row (fun t ht => (h t ht).covers) hi hspan

/-- No derivation has an empty span. -/
theorem span_lt {t : Tree} (h : Derivation g lex tokens t) : t.span.1 < t.span.2 := by
  obtain ⟨i, j, hspan, hcovers⟩ := h.covers
  have hlt := hcovers.length_le
  simp only [List.length_singleton] at hlt
  rw [hspan]
  simp only
  omega

end Derivation

/-- Symbols that cover some tokens have derivation trees that stand side by side over them. -/
theorem exists_row_of_covers {form : List Piece} {i j : Nat} (h : g.Covers lex tokens form i j) :
    ∀ symbols : List Symbol, form = symbols.map .symbol → ∃ ts : List Tree, ts.map symbol = symbols ∧
      Adjoining i ts j ∧ ∀ t ∈ ts, Derivation g lex tokens t := by
  induction h with
  | nil _ =>
    intro symbols hform
    obtain rfl := List.map_eq_nil_iff.1 hform.symm
    exact ⟨[], rfl, rfl, by simp⟩
  | word _ _ _ =>
    intro symbols hform
    obtain ⟨_, _, _, hpiece, _⟩ := List.map_eq_cons_iff.1 hform.symm
    cases hpiece
  | @tag tag w rest i j hword htag _ ih =>
    intro symbols hform
    obtain ⟨s, symbols, rfl, hs, rfl⟩ := List.map_eq_cons_iff.1 hform.symm
    obtain rfl := Piece.symbol.inj hs
    obtain ⟨ts, hsymbols, hspan, hts⟩ := ih symbols rfl
    obtain ⟨hcategory, r, hr, rfl⟩ := htag
    refine ⟨.leaf r.pos (some w) (i, i + 1) (some r) :: ts, by simp [hsymbols],
      ⟨rfl, by rw [span_leaf]; exact_mod_cast hspan⟩, ?_⟩
    intro t ht
    rcases List.mem_cons.1 ht with rfl | ht
    · exact .word hword hr hcategory
    · exact hts t ht
  | @rule rule rest i k j hrule _ _ ih₁ ih₂ =>
    intro symbols hform
    obtain ⟨s, symbols, rfl, hs, rfl⟩ := List.map_eq_cons_iff.1 hform.symm
    obtain rfl := Piece.symbol.inj hs
    obtain ⟨children, hrhs, hinner, hchildren⟩ := ih₁ rule.rhs rfl
    obtain ⟨ts, hsymbols, hspan, hts⟩ := ih₂ symbols rfl
    refine ⟨.branch rule.lhs children (i, k) :: ts, by simp [hsymbols], ⟨rfl, hspan⟩, ?_⟩
    intro t ht
    rcases List.mem_cons.1 ht with rfl | ht
    · exact .rule hrule hrhs hinner hchildren
    · exact hts t ht

/-- What a symbol covers has a derivation from that symbol. -/
theorem exists_of_covers {s : Symbol} {i j : Nat} (h : g.Covers lex tokens [.symbol s] i j) :
    ∃ t, Derivation g lex tokens t ∧ t.symbol = s ∧ t.span = (↑i, ↑j) := by
  obtain ⟨ts, hsymbols, hspan, hts⟩ := exists_row_of_covers h [s] rfl
  obtain ⟨t, rest, rfl, rfl, hrest⟩ := List.map_eq_cons_iff.1 hsymbols
  obtain rfl := List.map_eq_nil_iff.1 hrest
  exact ⟨t, hts t (by simp), rfl, Prod.ext hspan.1 hspan.2⟩

/-- No derivation tree of the same symbol over the same tokens has fewer nodes. -/
def Smallest (g : Grammar) (lex : Lexicon) (tokens : List String) (t : Tree) : Prop :=
  Derivation g lex tokens t ∧ ∀ t', Derivation g lex tokens t' → t'.symbol = t.symbol →
    t'.span = t.span → t.walk.length ≤ t'.walk.length

private theorem adjoining_replace {front back : List Tree} {t t' : Tree} {i j : Int}
    (h : Adjoining i (front ++ t :: back) j) (hspan : t'.span = t.span) :
    Adjoining i (front ++ t' :: back) j := by
  obtain ⟨k, hfront, hstart, hback⟩ := adjoining_append.1 h
  exact adjoining_append.2 ⟨k, hfront, by rw [hspan, hstart], by rw [hspan]; exact hback⟩

private theorem Smallest.of_mem_children {t : Tree} (h : Smallest g lex tokens t) {c : Tree}
    (hc : c ∈ t.children) : Smallest g lex tokens c := by
  obtain ⟨hderivation, hsmall⟩ := h
  cases hderivation with
  | word _ _ _ => cases hc
  | @rule rule children i j hrule hrhs hspan hchildren =>
    refine ⟨hchildren c hc, fun c' hc' hsymbol hcspan => ?_⟩
    obtain ⟨front, back, rfl⟩ := List.append_of_mem (show c ∈ children from hc)
    have hreplaced : Derivation g lex tokens (.branch rule.lhs (front ++ c' :: back) (i, j)) := by
      refine .rule hrule ?_ (adjoining_replace hspan hcspan) fun t ht => ?_
      · rw [← hrhs]
        simp [hsymbol]
      · rcases List.mem_append.1 ht with hfront | hback
        · exact hchildren t (by simp [hfront])
        · rcases List.mem_cons.1 hback with rfl | hback
          · exact hc'
          · exact hchildren t (by simp [hback])
    have hle := hsmall _ hreplaced rfl rfl
    simp only [walk_eq, children_branch, walkAll_eq, List.flatMap_append, List.flatMap_cons,
      List.length_cons, List.length_append] at hle ⊢
    omega

/-- Every node of a smallest derivation is a smallest one. -/
theorem Smallest.of_mem_walk {t : Tree} (h : Smallest g lex tokens t) :
    ∀ a ∈ t.walk, Smallest g lex tokens a := by
  have hderivation := h.1
  induction hderivation with
  | word _ _ _ =>
    intro a ha
    rcases mem_walk.1 ha with rfl | ⟨c, hc, _⟩
    · exact h
    · cases hc
  | rule _ _ _ _ ih =>
    intro a ha
    rcases mem_walk.1 ha with rfl | ⟨c, hc, hac⟩
    · exact h
    · exact ih c hc (h.of_mem_children hc) a hac

private theorem length_walk_le_walkAll {c : Tree} {ts : List Tree} (hc : c ∈ ts) :
    c.walk.length ≤ (walkAll ts).length := by
  obtain ⟨front, back, rfl⟩ := List.append_of_mem hc
  simp only [walkAll_eq, List.flatMap_append, List.flatMap_cons, List.length_append]
  omega

private theorem Derivation.length_walk_le {t : Tree} (h : Derivation g lex tokens t) :
    ∀ a ∈ t.walk, a.walk.length ≤ t.walk.length := by
  induction h with
  | word _ _ _ =>
    intro a ha
    rcases mem_walk.1 ha with rfl | ⟨c, hc, _⟩
    · exact Nat.le_refl _
    · cases hc
  | @rule rule children i j _ _ _ _ ih =>
    intro a ha
    rcases mem_walk.1 ha with rfl | ⟨c, hc, hac⟩
    · exact Nat.le_refl _
    · have hle := Nat.le_trans (ih c hc a hac) (length_walk_le_walkAll hc)
      rw [walk_eq (.branch _ _ _), List.length_cons]
      exact Nat.le_succ_of_le hle

/-- A node that repeats one above it would make a smaller tree in its place. -/
theorem Smallest.acyclic {t : Tree} (h : Smallest g lex tokens t) : t.Acyclic := by
  intro a ha b hb heq
  obtain ⟨hderivation, hsmall⟩ := h.of_mem_walk a ha
  obtain ⟨c, hc, hbc⟩ := mem_walkAll.1 hb
  obtain ⟨hsymbol, _, hspan⟩ := by simpa only [expansion, Prod.mk.injEq] using heq
  have hle := hsmall b (hderivation.of_mem_walk b (mem_walk.2 (.inr ⟨c, hc, hbc⟩))) hsymbol hspan
  have hbelow := (hderivation.of_mem_walk c (mem_walk.2 (.inr ⟨c, hc, self_mem_walk c⟩))).length_walk_le
    b hbc
  have hchild := length_walk_le_walkAll hc
  rw [walk_eq a, List.length_cons] at hle
  omega

/-- A derivable symbol has a derivation tree without repetition over its span. -/
theorem exists_acyclic {t : Tree} (h : Derivation g lex tokens t) :
    ∃ t', Derivation g lex tokens t' ∧ t'.symbol = t.symbol ∧ t'.span = t.span ∧ t'.Acyclic := by
  classical
  have hsome : ∃ n, ∃ t', Derivation g lex tokens t' ∧ t'.symbol = t.symbol ∧ t'.span = t.span ∧
      t'.walk.length = n := ⟨_, t, h, rfl, rfl, rfl⟩
  obtain ⟨t', ht', hsymbol, hspan, hlength⟩ := Nat.find_spec hsome
  refine ⟨t', ht', hsymbol, hspan, Smallest.acyclic ⟨ht', fun other hother hs hsp => ?_⟩⟩
  rw [hlength]
  exact Nat.find_min' hsome ⟨other, hother, hs.trans hsymbol, hsp.trans hspan, rfl⟩

private theorem leavesOfAll_eq (ts : List Tree) : leavesOfAll ts = ts.flatMap leaves := by
  induction ts with
  | nil => rfl
  | cons t rest ih => rw [leavesOfAll, ih, List.flatMap_cons]

private theorem leaves_branch (s : Symbol) {children : List Tree} (hne : children ≠ []) (span : Int × Int) :
    (branch s children span).leaves = children.flatMap leaves := by
  cases children with
  | nil => exact absurd rfl hne
  | cons c rest => rw [branch, leaves, leavesOfAll_eq, List.flatMap_cons]

private theorem leaves_row {ts : List Tree} (hts : ∀ t ∈ ts, Derivation g lex tokens t)
    (hleaves : ∀ t ∈ ts, ∀ i j : Nat, t.span = (↑i, ↑j) →
      t.leaves.map Tree.word = ((tokens.take j).drop i).map some)
    {i j : Nat} (hi : i ≤ tokens.length) (hspan : Adjoining i ts j) :
    (ts.flatMap leaves).map Tree.word = ((tokens.take j).drop i).map some := by
  induction ts generalizing i with
  | nil =>
    obtain rfl : i = j := by simp only [Adjoining] at hspan; omega
    simp
  | cons t rest ih =>
    obtain ⟨hstart, hrest⟩ := hspan
    obtain ⟨i', m, htspan, hcovers⟩ := (hts t (by simp)).covers
    rw [htspan] at hstart hrest
    obtain rfl : i' = i := by simp only at hstart; omega
    have hrow := Derivation.covers_all (fun c hc => hts c (by simp [hc])) hcovers.le_length hrest
    obtain ⟨k, hk, hcovers'⟩ := hrow
    obtain rfl : k = j := by omega
    rw [List.flatMap_cons, List.map_append, hleaves t (by simp) i' m htspan,
      ih (fun c hc => hts c (by simp [hc])) (fun c hc => hleaves c (by simp [hc]))
        hcovers.le_length hrest,
      ← List.map_append, slice_append hcovers.le hcovers'.le hcovers'.le_length]

/-- The leaves of a derivation tree carry the tokens that it spans. -/
theorem Derivation.leaves_word {t : Tree} (h : Derivation g lex tokens t) {i j : Nat}
    (hspan : t.span = (↑i, ↑j)) :
    t.leaves.map Tree.word = ((tokens.take j).drop i).map some := by
  induction h generalizing i j with
  | @word k w r hword hr htag =>
    obtain ⟨hi, hj⟩ := Prod.mk.inj hspan
    obtain rfl : k = i := by omega
    obtain rfl : j = k + 1 := by omega
    have hempty : (tokens.take (k + 1)).drop (k + 1) = [] := by simp
    rw [slice_cons hword (Nat.lt_succ_self k), hempty]
    rfl
  | @rule rule children i' j' hrule hrhs hadjoining hchildren ih =>
    have hne : children ≠ [] := by
      rintro rfl
      exact rhs_ne_nil_of_mem hrule hrhs.symm
    obtain ⟨i'', j'', heq, hcovers⟩ := (Derivation.rule hrule hrhs hadjoining hchildren).covers
    rw [hspan] at heq
    obtain ⟨hi, _⟩ := Prod.mk.inj heq
    obtain ⟨rfl, rfl⟩ := Prod.mk.inj hspan
    have hle := Nat.le_trans hcovers.le hcovers.le_length
    rw [leaves_branch _ hne]
    exact leaves_row hchildren (fun t ht i j hs => ih t ht hs) (by omega) hadjoining

/-- Every part of a row of derivation trees has a width, unless it is empty. -/
private theorem row_le {ts : List Tree} (hts : ∀ t ∈ ts, Derivation g lex tokens t) {i j : Int}
    (hspan : Adjoining i ts j) : i ≤ j ∧ (ts ≠ [] → i < j) := by
  induction ts generalizing i with
  | nil => exact ⟨Int.le_of_eq hspan, fun hne => absurd rfl hne⟩
  | cons t rest ih =>
    obtain ⟨hstart, hrest⟩ := hspan
    have hlt := (hts t (by simp)).span_lt
    have hle := (ih (fun c hc => hts c (by simp [hc])) hrest).1
    exact ⟨by omega, fun _ => by omega⟩

/-- A tree of a row spans less than the row, unless it is the whole row. -/
private theorem mem_row_span {ts : List Tree} (hts : ∀ t ∈ ts, Derivation g lex tokens t) {i j : Int}
    (hspan : Adjoining i ts j) {c : Tree} (hc : c ∈ ts) :
    i ≤ c.span.1 ∧ c.span.2 ≤ j ∧ (c.span = (i, j) → ts = [c]) := by
  obtain ⟨front, back, rfl⟩ := List.append_of_mem hc
  obtain ⟨k, hfront, rfl, hback⟩ := adjoining_append.1 hspan
  obtain ⟨hle, hlt⟩ := row_le (fun t ht => hts t (by simp [ht])) hfront
  obtain ⟨hle', hlt'⟩ := row_le (fun t ht => hts t (by simp [ht])) hback
  refine ⟨hle, hle', fun heq => ?_⟩
  have hempty : front = [] := by
    by_contra hne
    have := hlt hne
    rw [heq] at this
    exact absurd this (Int.lt_irrefl _)
  have hempty' : back = [] := by
    by_contra hne
    have := hlt' hne
    rw [heq] at this
    exact absurd this (Int.lt_irrefl _)
  rw [hempty, hempty']
  rfl

private theorem Derivation.span_of_mem_walk {t : Tree} (h : Derivation g lex tokens t) :
    ∀ a ∈ t.walk, t.span.1 ≤ a.span.1 ∧ a.span.2 ≤ t.span.2 := by
  induction h with
  | word _ _ _ =>
    intro a ha
    rcases mem_walk.1 ha with rfl | ⟨c, hc, _⟩
    · exact ⟨Int.le_refl _, Int.le_refl _⟩
    · cases hc
  | rule _ _ hspan hchildren ih =>
    intro a ha
    rcases mem_walk.1 ha with rfl | ⟨c, hc, hac⟩
    · exact ⟨Int.le_refl _, Int.le_refl _⟩
    · obtain ⟨hstart, hstop, _⟩ := mem_row_span hchildren hspan hc
      obtain ⟨hstart', hstop'⟩ := ih c hc a hac
      exact ⟨Int.le_trans hstart hstart', Int.le_trans hstop' hstop⟩

end Tree

/-- A rule takes the first symbol to the second alone. -/
def Grammar.UnitStep (g : Grammar) (a b : Symbol) : Prop :=
  ∃ rule ∈ g.rules, rule.lhs = a ∧ rule.rhs = [b]

namespace Tree

variable {g : Grammar} {lex : Lexicon} {tokens : List String}

/-- A node below another over the same tokens is reached through rules with one symbol. -/
theorem Derivation.unitSteps {t : Tree} (h : Derivation g lex tokens t) :
    ∀ b ∈ walkAll t.children, b.span = t.span →
      Relation.TransGen g.UnitStep t.symbol b.symbol := by
  induction h with
  | word _ _ _ =>
    intro b hb _
    cases hb
  | @rule rule children i j hrule hrhs hspan hchildren ih =>
    intro b hb hsame
    obtain ⟨c, hc, hbc⟩ := mem_walkAll.1 hb
    rw [children_branch] at hc
    obtain ⟨hstart, hstop, hwhole⟩ := mem_row_span hchildren hspan hc
    obtain ⟨hstart', hstop'⟩ := (hchildren c hc).span_of_mem_walk b hbc
    rw [hsame, span_branch] at hstart' hstop'
    have hcspan : c.span = (i, j) :=
      Prod.ext (Int.le_antisymm hstart' hstart) (Int.le_antisymm hstop hstop')
    have honly := hwhole hcspan
    have hstep : g.UnitStep rule.lhs c.symbol := ⟨rule, hrule, rfl, by rw [← hrhs, honly]; rfl⟩
    rcases mem_walk.1 hbc with rfl | ⟨d, hd, hbd⟩
    · exact .single hstep
    · exact .head hstep (ih c hc b (mem_walkAll.2 ⟨d, hd, hbd⟩) (hsame.trans hcspan.symm))

/-- Where no symbol leads back to itself through such rules, no tree repeats an expansion. -/
theorem Derivation.acyclic_of_unit {t : Tree} (h : Derivation g lex tokens t)
    (hunit : ∀ s, ¬ Relation.TransGen g.UnitStep s s) : t.Acyclic := by
  intro a ha b hb heq
  obtain ⟨hsymbol, _, hspan⟩ := by simpa only [expansion, Prod.mk.injEq] using heq
  have hsteps := (h.of_mem_walk a ha).unitSteps b hb hspan
  rw [hsymbol] at hsteps
  exact hunit _ hsteps

end Tree

end Earley
