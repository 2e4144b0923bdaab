import Earley.Proofs.Chart.Items

namespace Earley

private theorem place?_lt {size k : Nat} {i : Int} (h : place? size i = some k) : k < size := by
  unfold place? at h
  split at h
  · next hnonneg =>
    split at h
    · next hlt =>
      obtain rfl := Option.some.inj h
      omega
    · cases h
  · split at h
    · next hneg hplace =>
      obtain rfl := Option.some.inj h
      omega
    · cases h

namespace Chart

/-- What the empty chart becomes by insertions and new edges. -/
inductive Made : Chart → Prop where
  | empty (tokens : List String) : Made (empty tokens)
  | insert {c d : Chart} {pos : Int} {rule : Rule} {dot origin : Int} {item : Item} (h : Made c)
    (hinsert : c.insert? pos rule dot origin = some (item, d)) : Made d
  | addEdge {c : Chart} (h : Made c) (id : Nat) (edge : Edge) : Made (c.addEdge id edge)

namespace Made

variable {c : Chart}

/-- Charts that were made by changes are coherent. -/
theorem coherent (h : Made c) : c.Coherent := by
  induction h with
  | empty tokens => exact .empty tokens
  | @insert c d pos rule dot origin item _ hinsert ih =>
    obtain ⟨k, hplace, heq⟩ := Option.map_eq_some_iff.1 hinsert
    have hcoherent := (insert_spec ih (Nat.zero_le k) (place?_lt hplace) rule dot origin).1
    rwa [heq] at hcoherent
  | addEdge _ id edge ih => exact ih.addEdge id edge

/-- An insertion into a column of the chart is a change. -/
theorem insert_natCast (h : Made c) {k : Nat} (hk : k < c.columns.size) (rule : Rule)
    (dot origin : Int) : Made (c.insert k rule dot origin).2 := by
  have hinsert : c.insert? k rule dot origin = some (c.insert k rule dot origin) := by
    rw [insert?, place?_natCast hk, Option.map_some]
  exact h.insert hinsert

private theorem advance (h : Made c) {k : Nat} (hk : k < c.columns.size) (item : Item) (edge : Edge) :
    Made (c.advance k item edge) :=
  (h.insert_natCast hk _ _ _).addEdge _ _

end Made

/-- A chart that is being filled was made by changes. -/
theorem Filling.made {g : Grammar} {lex : Lexicon} {tokens : List String} {pos i : Nat} {c : Chart}
    (h : Filling g lex tokens pos i c) : Made c := by
  induction h with
  | seed =>
    refine (predict_induction (Coherent.empty tokens) (Nat.zero_le _) Symbol.start (.empty tokens) ?_).2
    intro rule _ d hd hmade
    exact hmade.insert_natCast (by rw [hd.size]; omega) _ _ _
  | @step pos i c item h hitem ih =>
    obtain rfl := h.tokens_eq
    have hpos := h.pos_le
    refine (process_induction h.coherent hpos item ih ?_ ?_ ?_).2
    · intro s _ _ rule _ d hd hmade
      exact hmade.insert_natCast (by rw [hd.size]; omega) _ _ _
    · intro s word _ _ hword r _ _ d hd hmade
      have hlt := (List.getElem?_eq_some_iff.1 hword).1
      exact hmade.advance (by rw [hd.size]; omega) _ _
    · intro _ waiting _ _ d hd hmade
      exact hmade.advance (by rw [hd.size]; omega) _ _
  | turn _ _ _ ih => exact ih

/-- The chart of a sentence could have been made by hand. -/
theorem build_made (g : Grammar) (lex : Lexicon) (tokens : List String) : Made (build g lex tokens) :=
  (build_filling g lex tokens).choose_spec.1.made

end Chart

end Earley
