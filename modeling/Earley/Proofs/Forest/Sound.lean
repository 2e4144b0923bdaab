import Earley.Proofs.Chart.Edges
import Earley.Proofs.Forest.Alternatives
import Earley.Proofs.Tree.Canonical

namespace Earley

open Grammar Earley.Tree

namespace Forest

variable {g : Grammar} {lex : Lexicon} {tokens : List String} {limit : Option Nat}

/-- Every index that extraction uses names a place of the chart, counted from the front. -/
structure InRange (c : Chart) : Prop where
  columns : 0 < c.columns.size
  symbol : ∀ {j : Nat} {item : Item}, item ∈ c.column j → item.dot ≠ 0 →
    0 ≤ item.dot - 1 ∧ item.dot - 1 < item.rule.rhs.length
  previous : ∀ {j : Nat} {item : Item}, item ∈ c.column j → ∀ e ∈ c.edgesOf item.id,
    0 ≤ e.previous ∧ e.previous < c.items.size
  child : ∀ {j : Nat} {item : Item}, item ∈ c.column j → ∀ e ∈ c.edgesOf item.id, ∀ id,
    e.child = some id → 0 ≤ id ∧ id < c.items.size

/-- All edges of the chart of a sentence lead to items that are there. -/
theorem build_inRange (g : Grammar) (lex : Lexicon) (tokens : List String) :
    InRange (Chart.build g lex tokens) := by
  have hc := Chart.build_coherent g lex tokens
  have hsound := Chart.build_sound g lex tokens
  have hrange {j : Nat} {item : Item} (hmem : item ∈ (Chart.build g lex tokens).column j) :
      0 ≤ (item.id : Int) ∧ (item.id : Int) < (Chart.build g lex tokens).items.size :=
    ⟨Int.natCast_nonneg _, Int.ofNat_lt.2 (hc.id_lt_items hmem)⟩
  have hedges {j : Nat} {item : Item} (hmem : item ∈ (Chart.build g lex tokens).column j)
      (e : Edge) (he : e ∈ (Chart.build g lex tokens).edgesOf item.id) :
      (0 ≤ e.previous ∧ e.previous < (Chart.build g lex tokens).items.size) ∧
        ∀ id, e.child = some id → 0 ≤ id ∧ id < (Chart.build g lex tokens).items.size := by
    by_cases hdot : item.dot = 0
    · rw [Chart.build_edges_start g lex tokens hmem hdot] at he
      cases he
    · obtain ⟨s, hs, _⟩ := (hsound j item hmem).exists_last hdot
      rcases Chart.build_edge_cases g lex tokens hmem hdot hs he with
        ⟨m, w, r, waiting, hwaiting, _, _, _, _, _, _, rfl⟩ |
          ⟨m, waiting, hwaiting, done, hdone, _, _, _, _, rfl⟩
      · exact ⟨hrange hwaiting, fun id hid => by cases hid⟩
      · exact ⟨hrange hwaiting, fun id hid => Option.some.inj hid ▸ hrange hdone⟩
  refine ⟨?_, fun hmem hdot => ?_, fun hmem e he => (hedges hmem e he).1,
    fun hmem e he => (hedges hmem e he).2⟩
  · rw [hc.columns_size]
    exact Nat.succ_pos _
  · have hvalid := hsound _ _ hmem
    have hnonneg := hvalid.dot_nonneg
    have hle := hvalid.dot_le
    omega

/-- Edges that lead to items which are there are linked to items with their identifiers. -/
theorem InRange.linked {c : Chart} (h : InRange c) (hc : c.Coherent) : Linked c := by
  have hitem? {id : Int} (hid : 0 ≤ id ∧ id < c.items.size) : ∃ item, c.item? id = some item := by
    obtain ⟨i, rfl⟩ := Int.eq_ofNat_of_zero_le hid.1
    have hlt : i < c.items.size := by omega
    exact ⟨c.items[i], by rw [Chart.item?, place?_natCast hlt, Option.bind_some,
      Array.getElem?_eq_getElem hlt]⟩
  refine ⟨fun hitem => (hc.column_of_items hitem).1, ?_, ?_, ?_⟩
  · intro i item hitem hdot
    obtain ⟨_, j, hmem⟩ := hc.column_of_items hitem
    obtain ⟨hnonneg, hlt⟩ := h.symbol hmem hdot
    obtain ⟨d, hd⟩ := Int.eq_ofNat_of_zero_le hnonneg
    have hlt : d < item.rule.rhs.length := by omega
    exact ⟨item.rule.rhs[d], by rw [Item.symbolAt?, hd, place?_natCast hlt, Option.bind_some,
      List.getElem?_eq_getElem hlt]⟩
  · intro i item hitem e he
    obtain ⟨rfl, j, hmem⟩ := hc.column_of_items hitem
    exact hitem? (h.previous hmem e he)
  · intro i item hitem e he id hid
    obtain ⟨rfl, j, hmem⟩ := hc.column_of_items hitem
    exact hitem? (h.child hmem e he id hid)

section

variable {c : Chart} {alts : Item → List Partial} {item waiting : Item} {m : Nat}

/-- Along an edge to a word, every row grows by the leaf of that word and its reading. -/
theorem along_wordEdge (hc : c.Coherent) (hwaiting : waiting ∈ c.column m) {s : Symbol}
    (hs : item.symbolAt? (item.dot - 1) = some s) (w : String) (r : Reading) :
    along c alts item (Chart.wordEdge waiting w r) = (alts waiting).map fun p =>
      p.extend (.leaf s (some w) (p.stop, p.stop + 1) (some r)) (leafKey s w) := by
  rw [along_leaf (hc.item?_of_mem hwaiting) rfl hs, List.map_eq_flatMap]
  refine List.flatMap_congr fun p _ => ?_
  simp [grown, leafAfter, Chart.wordEdge, shownWord]

/-- Along an edge to a finished item, every row grows by the item's trees that begin where it ends. -/
theorem along_childEdge (hc : c.Coherent) (hwaiting : waiting ∈ c.column m) {done : Item} {j : Nat}
    (hdone : done ∈ c.column j) : along c alts item (Chart.childEdge waiting done) =
      (alts waiting).flatMap (grown fun _ => (alts done).map (Partial.close done)) :=
  along_child (hc.item?_of_mem hwaiting) rfl (hc.item?_of_mem hdone)

end

/-- A row that has grown is one that was there with a child at its end, the child beginning where the row
ends. -/
theorem mem_grown {children : Partial → List Keyed} {p q : Partial} : q ∈ grown children p ↔
    ∃ k ∈ children p, k.tree.span.1 = p.stop ∧ p.extend k.tree k.key = q := by
  simp only [grown, List.mem_map, List.mem_filter, beq_iff_eq, and_assoc]

/-- The key of a longer row is put together from the keys of the row and of the child. -/
theorem extend_key (p : Partial) (child : Tree) (key : String) :
    (p.extend child key).key = joinKey p.key key := rfl

/-- What the complete items of a path do, each in its column. -/
def above (trail : List (Nat × Item)) : List (Symbol × List Symbol × Int × Int) :=
  (trail.filter (·.2.next?.isNone)).map fun x =>
    (x.2.rule.lhs, x.2.rule.rhs, x.2.origin, (x.1 : Int))

/-- The numbers of the items of a path. -/
def ids (trail : List (Nat × Item)) : List Nat :=
  trail.map (·.2.id)

theorem ids_cons (j : Nat) (item : Item) (trail : List (Nat × Item)) :
    ids ((j, item) :: trail) = item.id :: ids trail := rfl

/-- An item that is not finished adds nothing to what stands above. -/
theorem above_cons_of_next {j : Nat} {item : Item} {s : Symbol} (hnext : item.next? = some s)
    (trail : List (Nat × Item)) : above ((j, item) :: trail) = above trail := by
  simp [above, hnext]

/-- A finished item stands above what is found below it, as a node with its rule and its span. -/
theorem above_cons_of_complete {j : Nat} {item : Item} (hnext : item.next? = none)
    (trail : List (Nat × Item)) : above ((j, item) :: trail) =
      (item.rule.lhs, item.rule.rhs, item.origin, (j : Int)) :: above trail := by
  simp [above, hnext]

/-- What a partial derivation of an item is: a row of derivation trees for the symbols before the dot,
from the origin of the item to its column. -/
structure Partial.Row (g : Grammar) (lex : Lexicon) (tokens : List String) (j : Nat) (item : Item)
    (p : Partial) : Prop where
  stop : p.stop = j
  key : p.key = rowKey p.children
  symbols : p.children.map symbol = item.rule.rhs.take item.dot.toNat
  span : Adjoining item.origin p.children j
  derivation : ∀ t ∈ p.children, Derivation g lex tokens t

/-- The empty row is a row of every valid item whose dot has not moved. -/
theorem start_row {j : Nat} {item : Item} (hvalid : item.Valid g lex tokens j) (hdot : item.dot = 0) :
    (start item).Row g lex tokens j item := by
  have hcovers := hvalid.covers
  have hnonneg := hvalid.origin_nonneg
  rw [hdot, Int.toNat_zero, List.take_zero, List.map_nil] at hcovers
  have horigin := (covers_nil.1 hcovers).1
  have hstop : item.origin = j := by omega
  exact ⟨hstop, rfl, by rw [hdot]; rfl, hstop, fun _ ht => absurd ht List.not_mem_nil⟩

namespace Partial.Row

variable {j : Nat} {item : Item} {p : Partial}

/-- The children in a row of a finished item are those that its rule asks for. -/
theorem symbols_of_complete (h : p.Row g lex tokens j item) (hvalid : item.Valid g lex tokens j)
    (hcomplete : item.next? = none) : p.children.map symbol = item.rule.rhs := by
  rw [h.symbols, hvalid.dot_eq_of_complete hcomplete, List.take_length]

/-- A complete item's row makes a derivation tree. -/
theorem close (h : p.Row g lex tokens j item) (hvalid : item.Valid g lex tokens j)
    (hcomplete : item.next? = none) :
    (p.close item).tree = .branch item.rule.lhs p.children (item.origin, j) ∧
      Derivation g lex tokens (p.close item).tree ∧
      (p.close item).tree.expansion = (item.rule.lhs, item.rule.rhs, item.origin, (j : Int)) ∧
      (p.close item).key = (p.close item).tree.canonical := by
  have hsymbols := h.symbols_of_complete hvalid hcomplete
  have hderivation := Derivation.rule hvalid.rule hsymbols h.span h.derivation
  rw [Partial.close, h.stop]
  refine ⟨rfl, hderivation, ?_, ?_⟩
  · simp only [expansion, symbol_branch, children_branch, span_branch, hsymbols]
  · rw [canonical_branch _ (Derivation.children_ne_nil hvalid.rule hsymbols), h.key]

/-- A row with one more derivation tree is one of the item that it moves to. -/
theorem extend {m : Nat} {waiting : Item} (h : p.Row g lex tokens m waiting)
    (hat : waiting.isAt item.rule (item.dot - 1) item.origin = true) {s : Symbol}
    (hsplit : item.rule.rhs.take item.dot.toNat = item.rule.rhs.take (item.dot.toNat - 1) ++ [s])
    {t : Tree} (ht : Derivation g lex tokens t) (hs : t.symbol = s) (hspan : t.span = (↑m, ↑j))
    {key : String} (hkey : key = t.canonical) : (p.extend t key).Row g lex tokens j item := by
  obtain ⟨hdot, horigin, _, hrhs⟩ := Item.isAt_iff.1 hat
  have hbefore : item.dot.toNat - 1 = waiting.dot.toNat := by omega
  refine ⟨by rw [Partial.extend, hspan], ?_, ?_, ?_, ?_⟩
  · rw [extend_key, h.key, hkey, Partial.extend, rowKey_append_singleton]
  · rw [Partial.extend, List.map_append, h.symbols, hsplit, hbefore, hrhs, List.map_singleton, hs]
  · refine adjoining_append.2 ⟨m, horigin ▸ h.span, ?_⟩
    rw [Adjoining, hspan]
    exact ⟨rfl, rfl⟩
  · intro t' ht'
    rcases List.mem_append.1 ht' with hold | hnew
    · exact h.derivation t' hold
    · exact List.mem_singleton.1 hnew ▸ ht

/-- A row is continued by a leaf over the next word. -/
theorem read {m : Nat} {waiting : Item} (h : p.Row g lex tokens m waiting)
    (hat : waiting.isAt item.rule (item.dot - 1) item.origin = true) {w : String} {r : Reading}
    (hsplit : item.rule.rhs.take item.dot.toNat = item.rule.rhs.take (item.dot.toNat - 1) ++ [r.pos])
    (hword : tokens[m]? = some w) (hr : r ∈ lex.lookup w) (htag : Symbol.isCategory r.pos = false) :
    (p.extend (.leaf r.pos (some w) (p.stop, p.stop + 1) (some r)) (leafKey r.pos w)).Row g lex tokens
      (m + 1) item := by
  rw [h.stop]
  have ht : Derivation g lex tokens (.leaf r.pos (some w) (m, m + 1) (some r)) :=
    .word hword hr (by simp [Symbol.isTag, htag])
  exact h.extend hat hsplit ht rfl (by simp) rfl

/-- A row is continued by the tree of a complete item. -/
theorem join {m : Nat} {waiting done : Item} {q : Partial} (h : p.Row g lex tokens m waiting)
    (hat : waiting.isAt item.rule (item.dot - 1) item.origin = true)
    (hsplit : item.rule.rhs.take item.dot.toNat =
      item.rule.rhs.take (item.dot.toNat - 1) ++ [done.rule.lhs])
    (hq : q.Row g lex tokens j done) (hvalid : done.Valid g lex tokens j)
    (hcomplete : done.next? = none) (horigin : done.origin = m) :
    (p.extend (q.close done).tree (q.close done).key).Row g lex tokens j item := by
  obtain ⟨htree, ht, _, hkey⟩ := hq.close hvalid hcomplete
  exact h.extend hat hsplit ht (by rw [htree, symbol_branch]) (by rw [htree, span_branch, horigin]) hkey

end Partial.Row

private theorem not_mem_above_of_word {trail : List (Nat × Item)}
    (htrail : ∀ x ∈ trail, x.2 ∈ (Chart.build g lex tokens).column x.1) (s : Symbol) (span : Int × Int) :
    (s, [], span) ∉ above trail := by
  intro hmem
  obtain ⟨x, hx, heq⟩ := List.mem_map.1 hmem
  have hvalid := Chart.build_sound g lex tokens _ _ (htrail x (List.mem_filter.1 hx).1)
  exact rhs_ne_nil_of_mem hvalid.rule (Prod.mk.inj (Prod.mk.inj heq).2).1

/-- A finished item stands above exactly if the trail has met it. -/
theorem mem_above_iff {trail : List (Nat × Item)}
    (htrail : ∀ x ∈ trail, x.2 ∈ (Chart.build g lex tokens).column x.1) {j : Nat} {done : Item}
    (hdone : done ∈ (Chart.build g lex tokens).column j) (hcomplete : done.next? = none) :
    (done.rule.lhs, done.rule.rhs, done.origin, (j : Int)) ∈ above trail ↔ done.id ∈ ids trail := by
  have hc := Chart.build_coherent g lex tokens
  constructor
  · intro hmem
    obtain ⟨x, hx, heq⟩ := List.mem_map.1 hmem
    obtain ⟨hx, hnone⟩ := List.mem_filter.1 hx
    obtain ⟨hlhs, hrhs, horigin, hj⟩ := by simpa only [Prod.mk.injEq] using heq
    obtain rfl : x.1 = j := by omega
    have hother := Chart.build_sound g lex tokens _ _ (htrail x hx)
    have hvalid := Chart.build_sound g lex tokens _ _ hdone
    have hdot := hother.dot_eq_of_complete (Option.isNone_iff_eq_none.1 hnone)
    have hdot' := hvalid.dot_eq_of_complete hcomplete
    have hnonneg := hother.dot_nonneg
    have hnonneg' := hvalid.dot_nonneg
    have hsame := hc.eq_of_isAt (htrail x hx) hdone
      (Item.isAt_iff.2 ⟨by rw [hrhs] at hdot; omega, horigin, hlhs, hrhs⟩)
    exact List.mem_map.2 ⟨x, hx, by rw [hsame]⟩
  · intro hmem
    obtain ⟨x, hx, hid⟩ := List.mem_map.1 hmem
    have hsame := hc.eq_of_id (htrail x hx) hdone hid
    have hj := hc.column_unique (htrail x hx) (hsame ▸ hdone)
    refine List.mem_map.2 ⟨x, List.mem_filter.2 ⟨hx, ?_⟩, ?_⟩
    · rw [hsame, hcomplete]
      rfl
    · rw [hsame, hj]

/-- The alternatives of an item below a path are rows of derivation trees, in which nothing is done that
is done above. -/
theorem row_of_mem {trail : List (Nat × Item)}
    (htrail : ∀ x ∈ trail, x.2 ∈ (Chart.build g lex tokens).column x.1) {j : Nat} {item : Item}
    (hitem : item ∈ (Chart.build g lex tokens).column j) {p : Partial}
    (hp : p ∈ alternatives (Chart.build g lex tokens) limit (ids trail) item) :
    p.Row g lex tokens j item ∧ ∀ t ∈ p.children, t.Avoids (above ((j, item) :: trail)) := by
  have hc := Chart.build_coherent g lex tokens
  have hsound := Chart.build_sound g lex tokens
  -- On the number of items that are not on the path, which each step down adds one item to.
  induction hn : (offPath (Chart.build g lex tokens) (ids trail)).length using Nat.strongRecOn
    generalizing trail j item p with
  | ind n ih =>
    subst hn
    have hlt := hc.id_lt_items hitem
    have hvalid := hsound j item hitem
    by_cases hmem : item.id ∈ ids trail
    · rw [alternatives_of_mem hmem] at hp
      cases hp
    by_cases hdot : item.dot = 0
    · rw [alternatives_start hlt hmem hdot] at hp
      rw [List.mem_singleton.1 hp]
      exact ⟨start_row hvalid hdot, fun _ ht => absurd ht List.not_mem_nil⟩
    have hpositive : 0 < item.dot := by
      have := hvalid.dot_nonneg
      omega
    have hshorter := offPath_cons_lt hlt hmem
    have htrail' : ∀ x ∈ (j, item) :: trail, x.2 ∈ (Chart.build g lex tokens).column x.1 :=
      List.forall_mem_cons.2 ⟨hitem, htrail⟩
    rw [alternatives_eq hlt hmem hdot] at hp
    obtain ⟨e, he, hp⟩ := List.mem_flatMap.1 (mem_of_mem_firstBy ((bounded_sublist limit _).subset hp))
    obtain ⟨s, hs, hsymbol, hsplit⟩ := hvalid.exists_last hdot
    rcases Chart.build_edge_cases g lex tokens hitem hdot hs he with
      ⟨m, w, r, waiting, hwaiting, rfl, hword, hr, rfl, hcategory, hat, rfl⟩ |
        ⟨m, waiting, hwaiting, done, hdone, hat, hcomplete, rfl, horigin, rfl⟩
    · rw [along_wordEdge hc hwaiting hsymbol] at hp
      obtain ⟨before, hbefore, rfl⟩ := List.mem_map.1 hp
      obtain ⟨hrow, havoids⟩ := ih _ hshorter htrail' hwaiting hbefore rfl
      rw [above_cons_of_next (Item.next?_of_isAt hpositive hs hat)] at havoids
      refine ⟨hrow.read hat hsplit hword hr hcategory, fun t htree => ?_⟩
      rcases List.mem_append.1 htree with hold | hnew
      · exact havoids t hold
      · rw [List.mem_singleton.1 hnew]
        exact avoids_iff.2 ⟨not_mem_above_of_word htrail' _ _, fun c hc => by cases hc⟩
    · rw [along_childEdge hc hwaiting hdone] at hp
      obtain ⟨before, hbefore, hp⟩ := List.mem_flatMap.1 hp
      obtain ⟨_, hk, _, rfl⟩ := mem_grown.1 hp
      obtain ⟨inside, hinside, rfl⟩ := List.mem_map.1 hk
      obtain ⟨hrow, havoids⟩ := ih _ hshorter htrail' hwaiting hbefore rfl
      rw [above_cons_of_next (Item.next?_of_isAt hpositive hs hat)] at havoids
      obtain ⟨hinner, hbelow⟩ := ih _ hshorter htrail' hdone hinside rfl
      obtain ⟨_, _, hexpansion, _⟩ := hinner.close (hsound j done hdone) hcomplete
      refine ⟨hrow.join hat hsplit hinner (hsound j done hdone) hcomplete horigin, fun t htree' => ?_⟩
      rcases List.mem_append.1 htree' with hold | hnew
      · exact havoids t hold
      · rw [List.mem_singleton.1 hnew]
        refine avoids_iff.2 ⟨?_, ?_⟩
        · rw [hexpansion, mem_above_iff htrail' hdone hcomplete]
          intro hcut
          rw [alternatives_of_mem (show done.id ∈ item.id :: ids trail from hcut)] at hinside
          cases hinside
        · rw [hexpansion, ← above_cons_of_complete hcomplete]
          exact hbelow

end Forest

end Earley
