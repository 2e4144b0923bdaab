import Earley.Proofs.Tree.Written

namespace Earley.Tree

mutual

/-- The tree with no reading at any leaf. -/
def bare : Tree → Tree
  | .node s cs w sp _ => .node s (bareAll cs) w sp none

def bareAll : List Tree → List Tree
  | [] => []
  | t :: rest => bare t :: bareAll rest

end

private theorem bareAll_eq (ts : List Tree) : bareAll ts = ts.map bare := by
  induction ts with
  | nil => rfl
  | cons t rest ih => rw [bareAll, ih, List.map_cons]

@[simp] theorem bare_leaf (s : Symbol) (w : Option String) (span : Int × Int) (r : Option Reading) :
    (leaf s w span r).bare = leaf s w span none := rfl

/-- A node is made bare by making its children bare. -/
@[simp] theorem bare_branch (s : Symbol) (children : List Tree) (span : Int × Int) :
    (branch s children span).bare = branch s (children.map bare) span := by
  rw [branch, bare, bareAll_eq]
  rfl

/-- Bare trees keep their symbols. -/
@[simp] theorem symbol_bare (t : Tree) : t.bare.symbol = t.symbol := by
  cases t
  rfl

/-- Bare trees keep their spans. -/
@[simp] theorem span_bare (t : Tree) : t.bare.span = t.span := by
  cases t
  rfl

/-- The children of a bare tree are bare. -/
@[simp] theorem children_bare (t : Tree) : t.bare.children = t.children.map bare := by
  cases t
  rw [bare, bareAll_eq]
  rfl

@[simp] theorem map_symbol_bare (ts : List Tree) : (ts.map bare).map symbol = ts.map symbol := by
  simp

mutual

/-- The canonical form does not tell the readings, so that a bare tree has that of the tree. -/
theorem canonical_bare : ∀ t : Tree, t.bare.canonical = t.canonical
  | .node s [] w sp r => rfl
  | .node s (c :: cs) w sp r => by
    rw [bare, bareAll, canonical, canonical, canonical_bare c, canonicalRest_bareAll cs]

private theorem canonicalRest_bareAll : ∀ ts : List Tree, canonicalRest (bareAll ts) = canonicalRest ts
  | [] => rfl
  | t :: rest => by
    rw [bareAll, canonicalRest, canonicalRest, canonical_bare t, canonicalRest_bareAll rest]

end

mutual

private theorem walk_bare : ∀ t : Tree, t.bare.walk = t.walk.map bare
  | .node s cs w sp r => by
    rw [bare, walk, walk, walkAll_bareAll cs, List.map_cons, bare]

private theorem walkAll_bareAll : ∀ ts : List Tree, walkAll (bareAll ts) = (walkAll ts).map bare
  | [] => rfl
  | t :: rest => by
    rw [bareAll, walkAll, walkAll, walk_bare t, walkAll_bareAll rest, List.map_append]

end

private theorem walkAll_map_bare (ts : List Tree) : walkAll (ts.map bare) = (walkAll ts).map bare := by
  rw [← bareAll_eq, walkAll_bareAll]

/-- A bare node is expanded by the same rule. -/
@[simp] theorem expansion_bare (t : Tree) : t.bare.expansion = t.expansion := by
  rw [expansion, expansion, symbol_bare, children_bare, map_symbol_bare, span_bare]

/-- Readings take no part in what nodes do. -/
@[simp] theorem acyclic_bare {t : Tree} : t.bare.Acyclic ↔ t.Acyclic := by
  simp only [Acyclic, walk_bare, List.forall_mem_map, children_bare, walkAll_map_bare, expansion_bare]

private theorem adjoining_bare {i j : Int} {ts : List Tree} :
    Adjoining i (ts.map bare) j ↔ Adjoining i ts j := by
  induction ts generalizing i with
  | nil => rfl
  | cons t rest ih => simp [Adjoining, ih]

private theorem adjoining_stop {i j j' : Int} {ts : List Tree} (h : Adjoining i ts j)
    (h' : Adjoining i ts j') : j = j' := by
  induction ts generalizing i with
  | nil => exact h.symm.trans h'
  | cons t rest ih => exact ih h.2 h'.2

mutual

/-- The tree with no word and no reading at any leaf: symbols, children and spans. -/
def shape : Tree → Tree
  | .node s cs _ sp _ => .node s (shapeAll cs) none sp none

def shapeAll : List Tree → List Tree
  | [] => []
  | t :: rest => shape t :: shapeAll rest

end

private theorem shapeAll_eq (ts : List Tree) : shapeAll ts = ts.map shape := by
  induction ts with
  | nil => rfl
  | cons t rest ih => rw [shapeAll, ih, List.map_cons]

@[simp] theorem shape_leaf (s : Symbol) (w : Option String) (span : Int × Int) (r : Option Reading) :
    (leaf s w span r).shape = leaf s none span none := rfl

/-- The shape of a node is made of the shapes of its children. -/
@[simp] theorem shape_branch (s : Symbol) (children : List Tree) (span : Int × Int) :
    (branch s children span).shape = branch s (children.map shape) span := by
  rw [branch, shape, shapeAll_eq]
  rfl

/-- Shapes keep the spans. -/
@[simp] theorem span_shape (t : Tree) : t.shape.span = t.span := by
  cases t
  rfl

/-- The canonical forms of a row of trees, one after the other. -/
def rowKey : List Tree → String
  | [] => ""
  | t :: rest => t.canonical ++ canonicalRest rest

/-- A row of bare trees has the key of the row. -/
theorem rowKey_bare (ts : List Tree) : rowKey (ts.map bare) = rowKey ts := by
  cases ts with
  | nil => rfl
  | cons t rest =>
    rw [List.map_cons, rowKey, rowKey, canonical_bare, ← bareAll_eq, canonicalRest_bareAll]

/-- The canonical form of a node is made of its symbol and the key of its children. -/
theorem canonical_branch (s : Symbol) {children : List Tree} (hne : children ≠ [])
    (span : Int × Int) : (branch s children span).canonical = branchKey s (rowKey children) := by
  cases children with
  | nil => exact absurd rfl hne
  | cons c rest => rw [branch, canonical, rowKey]

private theorem canonicalRest_of_rowKey {ts ts' : List Tree} (hempty : ts = [] ↔ ts' = [])
    (h : rowKey ts = rowKey ts') : canonicalRest ts = canonicalRest ts' := by
  cases ts with
  | nil => rw [hempty.1 rfl]
  | cons t rest =>
    cases ts' with
    | nil => cases hempty.2 rfl
    | cons t' rest' =>
      rw [canonicalRest, canonicalRest, String.append_assoc, String.append_assoc]
      exact congrArg (" " ++ ·) h

private theorem canonicalRest_append (front back : List Tree) :
    canonicalRest (front ++ back) = canonicalRest front ++ canonicalRest back := by
  induction front with
  | nil => simp [canonicalRest]
  | cons t rest ih => simp [canonicalRest, ih, String.append_assoc]

/-- What a row's form becomes with one more tree. -/
def joinKey (row key : String) : String :=
  if row.isEmpty then key else row ++ " " ++ key

private theorem canonical_ne_empty (t : Tree) : t.canonical ≠ "" := by
  cases t with
  | node s cs w sp r => cases cs <;> simp [canonical, leafKey, branchKey]

/-- The key of a longer row is put together from the key of the row and the form of the new tree. -/
theorem rowKey_append_singleton (ts : List Tree) (t : Tree) :
    rowKey (ts ++ [t]) = joinKey (rowKey ts) t.canonical := by
  cases ts with
  | nil => simp [rowKey, joinKey, canonicalRest]
  | cons c rest =>
    have hne : ¬ (c.canonical ++ canonicalRest rest).isEmpty = true := by
      simp [canonical_ne_empty c]
    rw [List.cons_append, rowKey, rowKey, joinKey, if_neg hne, canonicalRest_append]
    simp [canonicalRest, String.append_assoc]

/-- Rows that get one key when the same is put to their ends had one key. -/
theorem joinKey_left_inj {row row' key : String} (h : joinKey row key = joinKey row' key) :
    row = row' := by
  have hlength := congrArg String.length h
  unfold joinKey at h hlength
  split at h <;> split at h <;> rename_i hrow hrow'
  · rw [String.isEmpty_iff.1 hrow, String.isEmpty_iff.1 hrow']
  · simp [hrow, hrow'] at hlength
  · simp [hrow, hrow'] at hlength
  · have hlist := congrArg String.toList h
    simp only [String.toList_append, List.append_assoc] at hlist
    exact String.toList_inj.1 (List.append_cancel_right hlist)

variable {g : Grammar} {lex : Lexicon} {tokens : List String}

/-- A node that is expanded by a rule has children. -/
theorem Derivation.children_ne_nil {rule : Rule} {children : List Tree} (hrule : rule ∈ g.rules)
    (hrhs : children.map symbol = rule.rhs) : children ≠ [] := by
  rintro rfl
  exact Grammar.rhs_ne_nil_of_mem hrule hrhs.symm

/-- If no symbol of the grammar has a blank in it, no node of a derivation has. -/
theorem Derivation.formed (hclean : ∀ rule ∈ g.rules, ∀ s ∈ rule.rhs, Spaceless s) {t : Tree}
    (h : Derivation g lex tokens t) (hs : Spaceless t.symbol) : ∀ node ∈ t.walk, node.Formed := by
  induction h with
  | word _ _ htag =>
    intro node hnode
    rcases mem_walk.1 hnode with rfl | ⟨c, hc, _⟩
    · exact ⟨fun hinner => absurd rfl hinner, fun _ => ⟨htag, hs, rfl⟩⟩
    · cases hc
  | @rule rule children i j hrule hrhs _ _ ih =>
    intro node hnode
    rcases mem_walk.1 hnode with rfl | ⟨c, hc, hnode⟩
    · exact ⟨fun _ => ⟨Grammar.isCategory_of_mem hrule, rfl⟩,
        fun hleaf => absurd hleaf (children_ne_nil hrule hrhs)⟩
    · exact ih c hc (hclean rule hrule _ (hrhs ▸ List.mem_map_of_mem hc)) node hnode

private theorem formed_row (hclean : ∀ rule ∈ g.rules, ∀ s ∈ rule.rhs, Spaceless s) {ts : List Tree}
    (hts : ∀ t ∈ ts, Derivation g lex tokens t) (hspaceless : ∀ t ∈ ts, Spaceless t.symbol) :
    ∀ node ∈ walkAll ts, node.Formed := by
  intro node hnode
  obtain ⟨t, ht, hmem⟩ := mem_walkAll.1 hnode
  exact (hts t ht).formed hclean (hspaceless t ht) node hmem

/-- The words of a row of derivation trees, and the tokens behind the row, are the tokens from where
the row begins. -/
theorem words_row {ts : List Tree} (hts : ∀ t ∈ ts, Derivation g lex tokens t) {i j : Int}
    (hspan : Adjoining i ts j) :
    (leavesOfAll ts).map word ++ (tokens.drop j.toNat).map some =
      (tokens.drop i.toNat).map some := by
  induction ts generalizing i with
  | nil =>
    obtain rfl : i = j := hspan
    rfl
  | cons t rest ih =>
    obtain ⟨rfl, hrest⟩ := hspan
    have ht := hts t (by simp)
    obtain ⟨k, m, htspan, hcovers⟩ := ht.covers
    rw [htspan] at hrest ⊢
    rw [leavesOfAll, List.map_append, ht.leaves_word htspan, List.append_assoc,
      ih (fun c hc => hts c (by simp [hc])) hrest, ← List.map_append, Int.toNat_natCast,
      Int.toNat_natCast]
    have hslice := Grammar.slice_append hcovers.le hcovers.le_length (Nat.le_refl tokens.length)
    rw [List.take_length] at hslice
    rw [hslice]

/-- Where rows of derivation trees begin at the same token, so do the trees of each place in them. -/
private theorem map_bare_of_outline {ts ts' : List Tree}
    (hts : ∀ t ∈ ts, ∀ {t' : Tree}, Derivation g lex tokens t' → t'.span.1 = t.span.1 →
      t.outline = t'.outline → t.bare = t'.bare)
    {i j j' : Int} (hspan : Adjoining i ts j) (hts' : ∀ t ∈ ts', Derivation g lex tokens t)
    (hspan' : Adjoining i ts' j') (h : ts.map outline = ts'.map outline) :
    ts.map bare = ts'.map bare := by
  induction ts generalizing i ts' with
  | nil => rw [List.map_eq_nil_iff.1 h.symm]
  | cons t rest ih =>
    cases ts' with
    | nil => cases h
    | cons t' rest' =>
      obtain ⟨hfirst, hothers⟩ := List.cons.inj h
      obtain ⟨hstart, hrest⟩ := hspan
      obtain ⟨hstart', hrest'⟩ := hspan'
      have hbare := hts t (by simp) (hts' t' (by simp)) (hstart'.trans hstart.symm) hfirst
      have hstop : t'.span.2 = t.span.2 := by rw [← span_bare t', ← hbare, span_bare]
      rw [hstop] at hrest'
      have hbares := ih (fun c hc => hts c (by simp [hc])) hrest (fun c hc => hts' c (by simp [hc]))
        hrest' hothers
      rw [List.map_cons, List.map_cons, hbare, hbares]

/-- Where derivation trees begin at the same token, symbols, children and words determine spans. -/
theorem Derivation.bare_eq_of_outline {t : Tree} (h : Derivation g lex tokens t) :
    ∀ {t' : Tree}, Derivation g lex tokens t' → t'.span.1 = t.span.1 → t.outline = t'.outline →
      t.bare = t'.bare := by
  induction h with
  | @word i w r hword hr htag =>
    intro t' ht' hstart houtline
    cases ht' with
    | @word i' w' r' hword' hr' htag' =>
      obtain rfl : i' = i := by simp only [span_leaf] at hstart; omega
      have hpos : r.pos = r'.pos := congrArg symbol houtline
      have hwords : some w = some w' := congrArg Tree.word houtline
      rw [bare_leaf, bare_leaf, hpos, hwords]
    | rule hrule hrhs _ _ =>
      have hchildren : [] = outlineAll _ := congrArg children houtline
      rw [outlineAll_eq] at hchildren
      exact absurd (List.map_eq_nil_iff.1 hchildren.symm) (children_ne_nil hrule hrhs)
  | @rule rule children i j hrule hrhs hspan hchildren ih =>
    intro t' ht' hstart houtline
    cases ht' with
    | word _ _ _ =>
      have hchildren' : outlineAll children = [] := congrArg Tree.children houtline
      rw [outlineAll_eq] at hchildren'
      exact absurd (List.map_eq_nil_iff.1 hchildren') (children_ne_nil hrule hrhs)
    | @rule rule' children' i' j' _ _ hspan' hchildren' =>
      have hlhs : rule.lhs = rule'.lhs := congrArg symbol houtline
      have hrow : children.map outline = children'.map outline := by
        rw [← outlineAll_eq, ← outlineAll_eq]
        exact congrArg Tree.children houtline
      obtain rfl : i' = i := hstart
      have hbares := map_bare_of_outline ih hspan hchildren' hspan' hrow
      have hstop : j = j' :=
        adjoining_stop (adjoining_bare.2 hspan) (hbares ▸ adjoining_bare.2 hspan')
      rw [bare_branch, bare_branch, hlhs, hbares, hstop]

/-- A derivation tree of a whole sentence spells it. -/
theorem Derivation.spells (hclean : ∀ rule ∈ g.rules, ∀ s ∈ rule.rhs, Spaceless s) {t : Tree}
    (h : Derivation g lex tokens t) (hs : Spaceless t.symbol)
    (hspan : t.span = (0, (tokens.length : Int))) : t.Spells tokens where
  formed := h.formed hclean hs
  words := by
    have hspan' : t.span = (((0 : Nat) : Int), (tokens.length : Int)) := hspan
    simpa using h.leaves_word hspan'

/-- Rows of trees with the same symbols over the same tokens are equal, readings apart, if they have
the same form. -/
theorem map_bare_of_rowKey (hclean : ∀ rule ∈ g.rules, ∀ s ∈ rule.rhs, Spaceless s)
    {ts ts' : List Tree} (hts : ∀ t ∈ ts, Derivation g lex tokens t)
    (hts' : ∀ t ∈ ts', Derivation g lex tokens t) (hsymbols : ts.map symbol = ts'.map symbol)
    (hspaceless : ∀ t ∈ ts, Spaceless t.symbol) {i j j' : Int} (hspan : Adjoining i ts j)
    (hspan' : Adjoining i ts' j') (hkey : rowKey ts = rowKey ts') : ts.map bare = ts'.map bare := by
  have hspaceless' : ∀ t ∈ ts', Spaceless t.symbol := by
    intro t ht
    obtain ⟨t', ht', hsymbol⟩ := List.mem_map.1 (hsymbols ▸ List.mem_map_of_mem ht)
    exact hsymbol ▸ hspaceless t' ht'
  have hlength : ts = [] ↔ ts' = [] := by
    rw [← List.map_eq_nil_iff (f := symbol), hsymbols, List.map_eq_nil_iff]
  have hwords := (words_row hts hspan).trans (words_row hts' hspan').symm
  have hwritten : writtenRest canonicalStyle ts ++ [] = writtenRest canonicalStyle ts' ++ [] := by
    rw [← toList_canonicalRest, ← toList_canonicalRest, canonicalRest_of_rowKey hlength hkey]
  obtain ⟨houtlines, _⟩ := writtenRest_append ts ts'
    (formed_row hclean hts hspaceless) (formed_row hclean hts' hspaceless') (by simp) (by simp) hwords
    hwritten
  rw [outlineAll_eq, outlineAll_eq] at houtlines
  exact map_bare_of_outline (fun t ht => (hts t ht).bare_eq_of_outline) hspan hts' hspan' houtlines

end Earley.Tree
