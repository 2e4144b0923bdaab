import Earley.Proofs.Chart.Items

namespace Earley

open Grammar

namespace Chart

variable {g : Grammar} {lex : Lexicon} {tokens : List String} {c : Chart}

/-- All consequences of all items are there. -/
def Saturated (g : Grammar) (lex : Lexicon) (tokens : List String) (c : Chart) : Prop :=
  ∀ (j : Nat) (item : Item), item ∈ c.column j → Settled g lex tokens c j item

/-- In a saturated chart an item moves on over whatever its next symbols cover. -/
theorem Saturated.has_of_covers (hs : Saturated g lex tokens c) {form : List Piece} {i j : Nat}
    (h : g.Covers lex tokens form i j) :
    ∀ (rule : Rule) (front middle back : List Symbol) (origin : Int),
      form = middle.map .symbol → rule.rhs = front ++ middle ++ back →
      c.Has i rule front.length origin → c.Has j rule (front ++ middle).length origin := by
  induction h with
  | nil _ =>
    intro rule front middle back origin hform _ hhas
    obtain rfl := List.map_eq_nil_iff.1 hform.symm
    simpa using hhas
  | word _ _ _ =>
    intro rule front middle back origin hform _ _
    obtain ⟨_, _, _, hpiece, _⟩ := List.map_eq_cons_iff.1 hform.symm
    cases hpiece
  | @tag tag w rest i j hword htag hrest ih =>
    intro rule front middle back origin hform hrhs hhas
    obtain ⟨s, middle, rfl, hs', rfl⟩ := List.map_eq_cons_iff.1 hform.symm
    obtain rfl := Piece.symbol.inj hs'
    obtain ⟨item, hmem, hat⟩ := hhas
    obtain ⟨hdot, rfl, hlhs, hrhs'⟩ := Item.isAt_iff.1 hat
    have hnext : item.next? = some s := by
      rw [Item.next?_eq (by omega), hdot, hrhs', hrhs]
      simp
    have hmoved := ((hs i item hmem).scan s w hnext hword htag).congr hlhs hrhs'
    have := ih rule (front ++ [s]) middle back item.origin rfl (by simp [hrhs])
      (by simpa [hdot] using hmoved)
    simpa using this
  | @rule r rest i k j hr hcovers hrest ih₁ ih₂ =>
    intro rule front middle back origin hform hrhs hhas
    obtain ⟨s, middle, rfl, hs', rfl⟩ := List.map_eq_cons_iff.1 hform.symm
    obtain rfl := Piece.symbol.inj hs'
    obtain ⟨item, hmem, hat⟩ := hhas
    obtain ⟨hdot, rfl, hlhs, hrhs'⟩ := Item.isAt_iff.1 hat
    have hnext : item.next? = some r.lhs := by
      rw [Item.next?_eq (by omega), hdot, hrhs', hrhs]
      simp
    have hpredicted := (hs i item hmem).predict r hr hnext
    obtain ⟨done, hdone, hdoneAt⟩ :=
      ih₁ r [] r.rhs [] i rfl (by simp) (by simpa using hpredicted)
    obtain ⟨hdoneDot, hdoneOrigin, hdoneLhs, hdoneRhs⟩ := Item.isAt_iff.1 hdoneAt
    have hcomplete : done.next? = none := by
      rw [Item.next?_eq (by omega), hdoneDot, hdoneRhs]
      simp
    have hwaiting : item ∈ c.column done.origin.toNat := by simpa [hdoneOrigin] using hmem
    have hmoved := ((hs k done hdone).complete hcomplete item hwaiting
      (by rw [hnext, hdoneLhs])).congr hlhs hrhs'
    have := ih₂ rule (front ++ [r.lhs]) middle back item.origin rfl (by simp [hrhs])
      (by simpa [hdot] using hmoved)
    simpa using this

/-- Where a symbol's rules begin, the rules of each symbol that it opens begin as well. -/
theorem Saturated.has_of_opens (hs : Saturated g lex tokens c) {target s : Symbol} {i j : Nat}
    (h : g.Opens lex tokens target j s i)
    (hrules : ∀ rule ∈ g.rules, rule.lhs = s → c.Has i rule 0 i) :
    ∀ rule ∈ g.rules, rule.lhs = target → c.Has j rule 0 j := by
  induction h with
  | refl => exact hrules
  | @step r front back s i k hr hrhs hfront _ ih =>
    refine ih fun rule hrule hlhs => ?_
    subst hlhs
    have hstart := hrules r hr rfl
    obtain ⟨item, hmem, hat⟩ := hs.has_of_covers hfront r [] front (rule.lhs :: back) i rfl
      (by simp [hrhs]) (by simpa using hstart)
    obtain ⟨hdot, _, _, hrhs'⟩ := Item.isAt_iff.1 hat
    refine (hs k item hmem).predict rule hrule ?_
    rw [Item.next?_eq (by omega), hdot, hrhs', hrhs]
    simp

private theorem build_saturated (g : Grammar) (lex : Lexicon) (tokens : List String) :
    Saturated g lex tokens (build g lex tokens) :=
  fun _ _ hmem => build_settled g lex tokens hmem

/-- The chart has each item that a derivation calls for. -/
theorem build_has {rule : Rule} (hrule : rule ∈ g.rules) {front back : List Symbol}
    (hrhs : rule.rhs = front ++ back) {k j : Nat} (hcovers : g.Covers lex tokens (front.map .symbol) k j)
    (hopens : g.Opens lex tokens rule.lhs k Symbol.start 0) :
    (build g lex tokens).Has j rule front.length k := by
  have hs := build_saturated g lex tokens
  obtain ⟨stop, hfilling, _⟩ := build_filling g lex tokens
  have hstart := hs.has_of_opens hopens (fun r hr hlhs => hfilling.seeded hr hlhs) rule hrule rfl
  have := hs.has_of_covers hcovers rule [] front back k rfl (by simp [hrhs]) (by simpa using hstart)
  simpa using this

/-- The complete item of a rule whose symbols cover some tokens. -/
theorem build_done {rule : Rule} (hrule : rule ∈ g.rules) {k j : Nat}
    (hcovers : g.Covers lex tokens (rule.rhs.map .symbol) k j)
    (hopens : g.Opens lex tokens rule.lhs k Symbol.start 0) :
    ∃ done ∈ (build g lex tokens).column j, done.next? = none ∧ done.rule.lhs = rule.lhs ∧
      done.rule.rhs = rule.rhs ∧ done.origin = k := by
  obtain ⟨done, hdone, hat⟩ := build_has hrule (List.append_nil _).symm hcovers hopens
  obtain ⟨hdot, horigin, hlhs, hrhs⟩ := Item.isAt_iff.1 hat
  refine ⟨done, hdone, ?_, hlhs, hrhs, horigin⟩
  rw [Item.next?_eq (by omega), hdot, hrhs]
  simp

/-- The item that an item came from, in the column up to which all but the last symbol cover the
tokens. -/
theorem build_waiting {j : Nat} {item : Item} (hmem : item ∈ (build g lex tokens).column j)
    (hdot : item.dot ≠ 0) {m : Nat} (hcovers : g.Covers lex tokens
      ((item.rule.rhs.take (item.dot.toNat - 1)).map .symbol) item.origin.toNat m) :
    ∃ waiting ∈ (build g lex tokens).column m,
      waiting.isAt item.rule (item.dot - 1) item.origin = true := by
  have hvalid := build_sound g lex tokens j item hmem
  have hnonneg := hvalid.dot_nonneg
  have horigin := hvalid.origin_nonneg
  have hle := hvalid.dot_le
  obtain ⟨waiting, hwaiting, hat⟩ :=
    build_has hvalid.rule (List.take_append_drop (item.dot.toNat - 1) _).symm hcovers hvalid.opens
  rw [List.length_take, Nat.min_eq_left (by omega)] at hat
  obtain ⟨hwdot, hworigin, hlhs, hrhs⟩ := Item.isAt_iff.1 hat
  exact ⟨waiting, hwaiting, Item.isAt_iff.2 ⟨by omega, by omega, hlhs, hrhs⟩⟩

/-- Column `j` of a finished chart has the item `lhs -> front . back` with origin `k` exactly when
`lhs -> front back` is a rule, `front` derives the tokens from `k` to `j`, and the first symbol
derives the tokens up to `k` followed by `lhs` and further symbols. No column has an item twice, and
no dot stands outside its right-hand side. -/
theorem build_column_iff (g : Grammar) (lex : Lexicon) (tokens : List String) :
    (build g lex tokens).columns.size = tokens.length + 1 ∧
    (∀ (j : Nat) (lhs : Symbol) (front back : List Symbol) (k : Int),
      (∃ item ∈ (build g lex tokens).column j, item.rule.lhs = lhs ∧ item.rule.rhs = front ++ back ∧
        item.dot = front.length ∧ item.origin = k) ↔
      (∃ rule ∈ g.rules, rule.lhs = lhs ∧ rule.rhs = front ++ back) ∧ 0 ≤ k ∧ k ≤ j ∧
        j ≤ tokens.length ∧
        g.Derives lex (front.map .symbol) (((tokens.take j).drop k.toNat).map .word) ∧
        ∃ rest : List Symbol, g.Derives lex [.symbol Symbol.start]
          ((tokens.take k.toNat).map .word ++ .symbol lhs :: rest.map .symbol)) ∧
    (∀ (j : Nat) (item : Item), item ∈ (build g lex tokens).column j →
      0 ≤ item.dot ∧ item.dot ≤ item.rule.rhs.length ∧
        ((build g lex tokens).column j).toList.countP
          (·.isAt item.rule item.dot item.origin) = 1) := by
  have hc := build_coherent g lex tokens
  have hs := build_sound g lex tokens
  refine ⟨?_, ?_, ?_⟩
  · rw [hc.columns_size, build_tokens]
  · intro j lhs front back k
    constructor
    · rintro ⟨item, hmem, rfl, hrhs, hdot, rfl⟩
      have h := hs j item hmem
      have horigin := h.origin_le
      have hnonneg := h.origin_nonneg
      have hcovers := h.covers
      rw [hrhs, hdot, Int.toNat_natCast, List.take_left'] at hcovers
      · exact ⟨⟨item.rule, h.rule, rfl, hrhs⟩, hnonneg, by omega, h.le_length, hcovers.derives,
          (derives_before_iff (Nat.le_trans horigin h.le_length)).2 h.opens⟩
      · rfl
    · rintro ⟨⟨rule, hrule, rfl, hrhs⟩, hk, hkj, hj, hderives, hbefore⟩
      obtain ⟨k, rfl⟩ := Int.eq_ofNat_of_zero_le hk
      rw [Int.toNat_natCast] at hderives hbefore
      have hle : k ≤ j := by omega
      obtain ⟨item, hmem, hat⟩ := build_has hrule hrhs ((derives_words_iff hle hj).1 hderives)
        ((derives_before_iff (Nat.le_trans hle hj)).1 hbefore)
      obtain ⟨hdot, horigin, hlhs, hrhs'⟩ := Item.isAt_iff.1 hat
      exact ⟨item, hmem, hlhs, hrhs'.trans hrhs, hdot, horigin⟩
  · intro j item hmem
    have h := hs j item hmem
    have hdot := h.dot_nonneg
    have hle := h.dot_le
    refine ⟨hdot, by omega, ?_⟩
    have hcount := List.count_eq_one_of_mem (hc.column_nodup j) (Array.mem_toList_iff.2 hmem)
    rw [← hcount, List.count]
    refine List.countP_congr fun other hother => ?_
    rw [beq_iff_eq]
    constructor
    · exact hc.eq_of_isAt (Array.mem_toList_iff.1 hother) hmem
    · rintro rfl
      exact Item.isAt_self _

end Chart

end Earley
