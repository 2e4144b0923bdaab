import Earley.Proofs.Tree.Derivation
import Earley.Text.Word

namespace Earley

/-- A symbol that ends where a form goes on. -/
def Tree.Spaceless (s : Symbol) : Prop := ' ' ∉ s.toList

/-- Words have no blanks in them. -/
theorem spaceless_of_isWord {s : Symbol} (h : Text.isWord s.toList = true) : Tree.Spaceless s := by
  intro hmem
  rw [Text.isWord, Bool.and_eq_true, List.all_eq_true] at h
  have hspace := h.2 ' ' hmem
  have hnot : Text.isWordChar ' ' = false := by decide
  rw [hnot] at hspace
  cases hspace

namespace Tree

private theorem spaceless_of_isCategory {s : Symbol} (h : s.isCategory = true) : Spaceless s := by
  have hall : ∀ s ∈ Symbol.categories, ' ' ∉ s.toList := by decide
  exact hall s (List.contains_iff_mem.1 h)

mutual

/-- The tree with no spans and no readings: symbols, children and words. -/
def outline : Tree → Tree
  | .node s cs w _ _ => .node s (outlineAll cs) w (0, 0) none

def outlineAll : List Tree → List Tree
  | [] => []
  | t :: rest => outline t :: outlineAll rest

end

/-- The outline of a row is that of its trees. -/
theorem outlineAll_eq (ts : List Tree) : outlineAll ts = ts.map outline := by
  induction ts with
  | nil => rfl
  | cons t rest ih => rw [outlineAll, ih, List.map_cons]

/-- How trees are written: what opens a node, what is written for the word of a leaf up to the end of
the leaf, and what closes a node that has children. -/
structure Style where
  opening : Char
  word : Option String → List Char
  closing : Char
  closing_ne : closing ≠ ' '

mutual

/-- The tree as it is written. -/
def written (style : Style) : Tree → List Char
  | .node s [] word _ _ => style.opening :: (s.toList ++ ' ' :: style.word word)
  | .node s (c :: cs) _ _ _ =>
    style.opening ::
      (s.toList ++ ' ' :: (written style c ++ writtenRest style cs ++ [style.closing]))

def writtenRest (style : Style) : List Tree → List Char
  | [] => []
  | t :: rest => ' ' :: (written style t ++ writtenRest style rest)

end

/-- The style of canonical forms. -/
def canonicalStyle : Style where
  opening := '('
  word w := '"' :: ((w.getD "").toList ++ ['"', ')'])
  closing := ')'
  closing_ne := by decide

/-- The style of the form for display. -/
def bracketedStyle : Style where
  opening := '['
  word w := (shownWord w).toList ++ [']']
  closing := ']'
  closing_ne := by decide

mutual

/-- The canonical form is a tree written in one style. -/
theorem toList_canonical : ∀ t : Tree, t.canonical.toList = t.written canonicalStyle
  | .node s [] w _ _ => by simp [canonical, leafKey, written, canonicalStyle]
  | .node s (c :: cs) _ _ _ => by
    simp [canonical, branchKey, written, toList_canonical c, toList_canonicalRest cs, canonicalStyle]

/-- The canonical form of a row is the row written in that style. -/
theorem toList_canonicalRest :
    ∀ ts : List Tree, (canonicalRest ts).toList = writtenRest canonicalStyle ts
  | [] => rfl
  | t :: rest => by
    simp [canonicalRest, writtenRest, toList_canonical t, toList_canonicalRest rest]

end

mutual

private theorem toList_bracketed : ∀ t : Tree, t.bracketed.toList = t.written bracketedStyle
  | .node s [] w _ _ => by simp [bracketed, written, bracketedStyle]
  | .node s (c :: cs) _ _ _ => by
    simp [bracketed, written, toList_bracketed c, toList_bracketedRest cs, bracketedStyle]

private theorem toList_bracketedRest :
    ∀ ts : List Tree, (bracketedRest ts).toList = writtenRest bracketedStyle ts
  | [] => rfl
  | t :: rest => by
    simp [bracketedRest, writtenRest, toList_bracketed t, toList_bracketedRest rest]

end

mutual

/-- Spans and readings are not written. -/
theorem written_outline (style : Style) : ∀ t : Tree, t.outline.written style = t.written style
  | .node s [] w _ _ => rfl
  | .node s (c :: cs) _ _ _ => by
    rw [outline, outlineAll, written, written, written_outline style c, writtenRest_outlineAll style cs]

private theorem writtenRest_outlineAll (style : Style) :
    ∀ ts : List Tree, writtenRest style (outlineAll ts) = writtenRest style ts
  | [] => rfl
  | t :: rest => by
    rw [outlineAll, writtenRest, writtenRest, written_outline style t, writtenRest_outlineAll style rest]

end

/-- A node as derivation trees have them, whatever the grammar: an inner node is a category, and a
leaf carries a word under a tag. No tag has a space in it. -/
structure Formed (node : Tree) : Prop where
  inner : node.children ≠ [] → node.symbol.isCategory = true ∧ node.word = none
  leaf : node.children = [] →
    node.symbol.isTag = true ∧ Spaceless node.symbol ∧ node.word.isSome = true

private theorem Formed.spaceless {node : Tree} (h : node.Formed) : Spaceless node.symbol := by
  by_cases hleaf : node.children = []
  · exact (h.leaf hleaf).2.1
  · exact spaceless_of_isCategory (h.inner hleaf).1

private theorem split_at_space {a a' b b' : List Char} (ha : ' ' ∉ a) (ha' : ' ' ∉ a')
    (h : a ++ ' ' :: b = a' ++ ' ' :: b') : a = a' ∧ b = b' := by
  induction a generalizing a' with
  | nil =>
    cases a' with
    | nil => exact ⟨rfl, by simpa using h⟩
    | cons c a' =>
      have hc := (List.cons.inj h).1
      simp [← hc] at ha'
  | cons c a ih =>
    cases a' with
    | nil =>
      have hc := (List.cons.inj h).1
      simp [hc] at ha
    | cons c' a' =>
      obtain ⟨rfl, hrest⟩ := List.cons.inj h
      obtain ⟨rfl, rfl⟩ := ih (by simp_all) (by simp_all) hrest
      exact ⟨rfl, rfl⟩

/-- What a node opens with tells its symbol. -/
private theorem symbol_of_opening {style : Style} {t t' : Tree} (h : t.Formed) (h' : t'.Formed)
    {a a' : List Char} (heq : style.opening :: (t.symbol.toList ++ ' ' :: a) =
      style.opening :: (t'.symbol.toList ++ ' ' :: a')) : t.symbol = t'.symbol ∧ a = a' := by
  obtain ⟨hsymbol, hrest⟩ := split_at_space h.spaceless h'.spaceless (List.cons.inj heq).2
  exact ⟨String.toList_inj.1 hsymbol, hrest⟩

private theorem leaf_ne_inner {t t' : Tree} (h : t.Formed) (h' : t'.Formed) (hleaf : t.children = [])
    (hinner : t'.children ≠ []) : t.symbol ≠ t'.symbol := by
  intro hsymbol
  have htag := (h.leaf hleaf).1
  rw [hsymbol, Symbol.isTag, (h'.inner hinner).1] at htag
  cases htag

mutual

/-- Whatever two trees are followed by, equal texts over equal words come from equal trees, spans and
readings apart. -/
theorem written_append {style : Style} : ∀ (t t' : Tree), (∀ node ∈ t.walk, node.Formed) →
    (∀ node ∈ t'.walk, node.Formed) → ∀ {ws ws' : List (Option String)} {u u' : List Char},
      t.leaves.map word ++ ws = t'.leaves.map word ++ ws' →
      t.written style ++ u = t'.written style ++ u' → t.outline = t'.outline ∧ ws = ws' ∧ u = u'
  | .node s [] w sp r, .node s' [] w' sp' r', h, h', ws, ws', u, u', hwords, heq => by
    have hnode := h _ (self_mem_walk _)
    have hnode' := h' _ (self_mem_walk _)
    simp only [written, List.cons_append, List.append_assoc] at heq
    obtain ⟨hsymbol, hrest⟩ := symbol_of_opening hnode hnode' heq
    obtain ⟨_, _, hword⟩ := hnode.leaf rfl
    obtain ⟨_, _, hword'⟩ := hnode'.leaf rfl
    obtain ⟨v, rfl⟩ := Option.isSome_iff_exists.1 hword
    obtain ⟨v', rfl⟩ := Option.isSome_iff_exists.1 hword'
    obtain ⟨hsame, hws⟩ := List.cons.inj hwords
    obtain rfl : v = v' := Option.some.inj hsame
    obtain rfl : s = s' := hsymbol
    exact ⟨rfl, hws, List.append_cancel_left hrest⟩
  | .node s [] w sp r, .node s' (c' :: cs') w' sp' r', h, h', ws, ws', u, u', _, heq => by
    have hnode := h _ (self_mem_walk _)
    have hnode' := h' _ (self_mem_walk _)
    simp only [written, List.cons_append, List.append_assoc] at heq
    exact absurd (symbol_of_opening hnode hnode' heq).1
      (leaf_ne_inner hnode hnode' rfl (List.cons_ne_nil c' cs'))
  | .node s (c :: cs) w sp r, .node s' [] w' sp' r', h, h', ws, ws', u, u', _, heq => by
    have hnode := h _ (self_mem_walk _)
    have hnode' := h' _ (self_mem_walk _)
    simp only [written, List.cons_append, List.append_assoc] at heq
    exact absurd (symbol_of_opening hnode hnode' heq).1.symm
      (leaf_ne_inner hnode' hnode rfl (List.cons_ne_nil c cs))
  | .node s (c :: cs) w sp r, .node s' (c' :: cs') w' sp' r', h, h', ws, ws', u, u', hwords, heq => by
    have hnode := h _ (self_mem_walk _)
    have hnode' := h' _ (self_mem_walk _)
    simp only [written, List.cons_append, List.append_assoc] at heq
    obtain ⟨hsymbol, hrest⟩ := symbol_of_opening hnode hnode' heq
    have hbelow : ∀ node ∈ walkAll (c :: cs), node.Formed := fun node hmem =>
      h node (by rw [walk]; exact List.mem_cons_of_mem _ hmem)
    have hbelow' : ∀ node ∈ walkAll (c' :: cs'), node.Formed := fun node hmem =>
      h' node (by rw [walk]; exact List.mem_cons_of_mem _ hmem)
    have hrow : writtenRest style (c :: cs) ++ style.closing :: u =
        writtenRest style (c' :: cs') ++ style.closing :: u' := by
      simpa [writtenRest] using hrest
    have hend (v : List Char) : (style.closing :: v).head? ≠ some ' ' := by
      simpa using style.closing_ne
    obtain ⟨hrows, hws, hu⟩ := writtenRest_append (c :: cs) (c' :: cs') hbelow hbelow' (hend u) (hend u')
      hwords hrow
    obtain rfl : s = s' := hsymbol
    obtain rfl : w = none := (hnode.inner (List.cons_ne_nil c cs)).2
    obtain rfl : w' = none := (hnode'.inner (List.cons_ne_nil c' cs')).2
    exact ⟨by rw [outline, outline, hrows], hws, (List.cons.inj hu).2⟩

/-- A row of children ends where no space follows. -/
theorem writtenRest_append {style : Style} : ∀ (ts ts' : List Tree),
    (∀ node ∈ walkAll ts, node.Formed) → (∀ node ∈ walkAll ts', node.Formed) →
      ∀ {ws ws' : List (Option String)} {u u' : List Char}, u.head? ≠ some ' ' → u'.head? ≠ some ' ' →
        (leavesOfAll ts).map word ++ ws = (leavesOfAll ts').map word ++ ws' →
        writtenRest style ts ++ u = writtenRest style ts' ++ u' →
          outlineAll ts = outlineAll ts' ∧ ws = ws' ∧ u = u'
  | [], [], _, _, ws, ws', u, u', _, _, hwords, heq => ⟨rfl, hwords, heq⟩
  | [], t' :: rest', _, _, ws, ws', u, u', hu, _, _, heq => by
    obtain rfl : u = _ := heq
    exact absurd rfl hu
  | t :: rest, [], _, _, ws, ws', u, u', _, hu', _, heq => by
    obtain rfl : _ = u' := heq
    exact absurd rfl hu'
  | t :: rest, t' :: rest', h, h', ws, ws', u, u', hu, hu', hwords, heq => by
    rw [walkAll, List.forall_mem_append] at h h'
    simp only [leavesOfAll, List.map_append, List.append_assoc] at hwords
    simp only [writtenRest, List.cons_append, List.append_assoc] at heq
    obtain ⟨hfirst, hws, hmore⟩ := written_append t t' h.1 h'.1 hwords (List.cons.inj heq).2
    obtain ⟨hothers, hws', hend⟩ := writtenRest_append rest rest' h.2 h'.2 hu hu' hws hmore
    exact ⟨by rw [outlineAll, outlineAll, hfirst, hothers], hws', hend⟩

end

/-- A derivation tree of a sentence, by whatever grammar and lexicon: all its nodes are formed as
those of derivation trees, and the words of its leaves are the tokens from the first to the last. -/
structure Spells (tokens : List String) (t : Tree) : Prop where
  formed : ∀ node ∈ t.walk, node.Formed
  words : t.leaves.map word = tokens.map some

variable {tokens : List String}

/-- Trees that spell the same tokens are written alike exactly if they have one outline, in whatever
style. -/
theorem Spells.written_inj {t t' : Tree} (h : t.Spells tokens) (h' : t'.Spells tokens) (style : Style) :
    t.written style = t'.written style ↔ t.outline = t'.outline := by
  constructor
  · intro heq
    have hwords : t.leaves.map word ++ [] = t'.leaves.map word ++ [] := by rw [h.words, h'.words]
    exact (written_append t t' h.formed h'.formed hwords (congrArg (· ++ []) heq)).1
  · intro heq
    rw [← written_outline, heq, written_outline]

/-- Two derivation trees of one sentence, whatever its tokens are, have the same canonical form, or the
same form for display, exactly when they have the same symbols, children and words. -/
theorem forms_eq_iff {t t' : Tree} (h : t.Spells tokens) (h' : t'.Spells tokens) :
    (t.canonical = t'.canonical ↔ t.outline = t'.outline) ∧
      (t.bracketed = t'.bracketed ↔ t.outline = t'.outline) := by
  rw [← String.toList_inj, toList_canonical, toList_canonical, ← String.toList_inj, toList_bracketed,
    toList_bracketed]
  exact ⟨h.written_inj h' canonicalStyle, h.written_inj h' bracketedStyle⟩

/-- Words that look like the end of one leaf and the beginning of another, in one style or the other. -/
def lookalikes : List String := ["x\") (N \"y", "x] [N y"]

/-- The two words side by side. -/
def sideBySide : Tree :=
  .branch "S" [.leaf "N" (some "x\") (N \"y") (0, 1) none, .leaf "N" (some "x] [N y") (1, 2) none] (0, 2)

/-- The second word below a node of its own. -/
def oneBelow : Tree :=
  .branch "S" [.leaf "N" (some "x\") (N \"y") (0, 1) none,
    .branch "NP" [.leaf "N" (some "x] [N y") (1, 2) none] (1, 2)] (0, 2)

-- Without the sentence, a form does not tell where its words end.
example : (branch "S" [leaf "N" (some "x\") (N \"y") (0, 1) none] (0, 1)).canonical =
    (branch "S" [leaf "N" (some "x") (0, 1) none, leaf "N" (some "y") (1, 2) none] (0, 2)).canonical := by
  decide

private theorem formed_noun (w : String) (span : Int × Int) : (leaf "N" (some w) span none).Formed :=
  ⟨fun hinner => absurd rfl hinner, fun _ => ⟨(by decide : Symbol.isTag "N" = true),
    spaceless_of_isWord (by decide : Text.isWord "N".toList = true), rfl⟩⟩

private theorem spells_sideBySide : sideBySide.Spells lookalikes where
  formed := by
    have hroot : sideBySide.Formed := ⟨fun _ => ⟨by decide, rfl⟩, fun hleaf => by cases hleaf⟩
    intro node hnode
    simp only [sideBySide, branch, leaf, walk, walkAll, List.append_nil, List.cons_append, List.nil_append,
      List.mem_cons, List.not_mem_nil, or_false] at hnode
    rcases hnode with rfl | rfl | rfl
    · exact hroot
    · exact formed_noun _ _
    · exact formed_noun _ _
  words := rfl

private theorem spells_oneBelow : oneBelow.Spells lookalikes where
  formed := by
    have hroot : oneBelow.Formed := ⟨fun _ => ⟨by decide, rfl⟩, fun hleaf => by cases hleaf⟩
    intro node hnode
    simp only [oneBelow, branch, leaf, walk, walkAll, List.append_nil, List.cons_append, List.nil_append,
      List.mem_cons, List.not_mem_nil, or_false] at hnode
    rcases hnode with rfl | rfl | rfl | rfl
    · exact hroot
    · exact formed_noun _ _
    · exact ⟨fun _ => ⟨by decide, rfl⟩, fun hleaf => by cases hleaf⟩
    · exact formed_noun _ _
  words := rfl

/-- Two trees over tokens that look like brackets, which both forms tell apart. -/
theorem forms_eq_iff_lookalikes : sideBySide.Spells lookalikes ∧ oneBelow.Spells lookalikes ∧
    sideBySide.canonical ≠ oneBelow.canonical ∧ sideBySide.bracketed ≠ oneBelow.bracketed := by
  have houtlines : sideBySide.outline ≠ oneBelow.outline := by
    intro heq
    have hsymbols := congrArg (fun t => t.children.map symbol) heq
    exact absurd hsymbols (by decide)
  obtain ⟨hcanonical, hbracketed⟩ := forms_eq_iff spells_sideBySide spells_oneBelow
  exact ⟨spells_sideBySide, spells_oneBelow, mt hcanonical.1 houtlines, mt hbracketed.1 houtlines⟩

end Tree

end Earley
