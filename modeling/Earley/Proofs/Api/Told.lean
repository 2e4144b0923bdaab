import Earley.Api.Message
import Earley.Tree.Json

namespace Earley

namespace Json

variable {keep : String → Bool}

private theorem keepInAll_eq_self_iff {xs : List Json} :
    keepInAll keep xs = xs ↔ ∀ x ∈ xs, x.keepMembers keep = x := by
  induction xs with
  | nil => simp [keepInAll]
  | cons x rest ih => rw [keepInAll, List.cons.injEq, ih, List.forall_mem_cons]

private theorem length_keepInMembers_le (keep : String → Bool) (members : List (String × Json)) :
    (keepInMembers keep members).length ≤ members.length := by
  induction members with
  | nil => exact Nat.le_refl _
  | cons m rest ih =>
    obtain ⟨name, x⟩ := m
    rw [keepInMembers]
    split
    · exact Nat.succ_le_succ ih
    · exact Nat.le_succ_of_le ih

private theorem keepInMembers_eq_self_iff {members : List (String × Json)} :
    keepInMembers keep members = members ↔
      ∀ m ∈ members, keep m.1 = true ∧ m.2.keepMembers keep = m.2 := by
  induction members with
  | nil => simp [keepInMembers]
  | cons m rest ih =>
    obtain ⟨name, x⟩ := m
    rw [keepInMembers, List.forall_mem_cons]
    by_cases hkeep : keep name = true
    · simp [hkeep, ih]
    · rw [if_neg hkeep]
      -- Without its first member, the list is too short.
      refine ⟨fun h => ?_, fun h => absurd h.1.1 hkeep⟩
      have hlength := length_keepInMembers_le keep rest
      rw [h, List.length_cons] at hlength
      omega

private theorem keepMembers_array_iff {xs : List Json} :
    (array xs).keepMembers keep = array xs ↔ ∀ x ∈ xs, x.keepMembers keep = x := by
  rw [keepMembers, array.injEq, keepInAll_eq_self_iff]

private theorem keepMembers_object_iff {members : List (String × Json)} :
    (object members).keepMembers keep = object members ↔
      ∀ m ∈ members, keep m.1 = true ∧ m.2.keepMembers keep = m.2 := by
  rw [keepMembers, object.injEq, keepInMembers_eq_self_iff]

private theorem keepMembers_strings (xs : List String) : (strings xs).keepMembers keep = strings xs :=
  keepMembers_array_iff.2 (List.forall_mem_map.2 fun _ _ => rfl)

end Json

open Json Api.Response

/-- All features of a reading are told. -/
def Reading.IsTold (r : Reading) : Prop := ∀ f ∈ r.features, isTold f.1 = true

instance (r : Reading) : Decidable r.IsTold := inferInstanceAs (Decidable (∀ f ∈ r.features, _))

/-- A reading is told in full exactly if all its features are. -/
theorem Reading.keepMembers_toJson_iff (r : Reading) :
    r.toJson.keepMembers isTold = r.toJson ↔ r.IsTold := by
  have hvalue (v : FeatureValue) : v.toJson.keepMembers isTold = v.toJson := by cases v <;> rfl
  have hnames : isTold "word" = true ∧ isTold "pos" = true ∧ isTold "lemma" = true ∧
    isTold "features" = true := by decide
  rw [toJson, keepMembers_object_iff]
  simp only [List.forall_mem_cons, hnames, keepMembers, true_and]
  split
  · next hempty =>
    have hnone : r.features = [] := List.isEmpty_iff.1 hempty
    simp [IsTold, hnone, keepMembers]
  · rw [keepMembers_object_iff, List.forall_mem_map]
    simp [IsTold, hvalue]

namespace Tree

/-- All features of the readings of a tree's words are told. -/
def IsTold (t : Tree) : Prop :=
  ∀ node ∈ t.walk, node.word.isSome = true → ∀ r ∈ node.reading, r.IsTold

instance (t : Tree) : Decidable t.IsTold := inferInstanceAs (Decidable (∀ node ∈ t.walk, _ → _))

private theorem keepMembers_wordMembers_iff (word : Option String) (reading : Option Reading) :
    (∀ m ∈ wordMembers word reading, isTold m.1 = true ∧ m.2.keepMembers isTold = m.2) ↔
      (word.isSome = true → ∀ r ∈ reading, r.IsTold) := by
  have hnames : isTold "word" = true ∧ isTold "entry" = true := by decide
  cases word with
  | none => simp [wordMembers]
  | some w =>
    cases reading with
    | none => simp [wordMembers, keepMembers, hnames]
    | some r => simp [wordMembers, keepMembers, hnames, r.keepMembers_toJson_iff]

mutual

/-- A tree is told in full exactly if all features of its words are. -/
theorem keepMembers_toJson_iff : (t : Tree) → (t.toJson.keepMembers isTold = t.toJson ↔ t.IsTold)
  | .node s cs word span reading => by
    have hnames : isTold "symbol" = true ∧ isTold "span" = true ∧ isTold "children" = true := by decide
    have hspan : (spanJson span).keepMembers isTold = spanJson span := rfl
    rw [toJson, keepMembers_object_iff, List.forall_mem_append, keepMembers_wordMembers_iff, IsTold, walk,
      List.forall_mem_cons]
    simp only [List.forall_mem_cons, hnames, hspan, keepMembers_array_iff, keepMembers_toJsonAll_iff cs]
    simp [keepMembers, Tree.word, Tree.reading, and_comm]

private theorem keepMembers_toJsonAll_iff : (ts : List Tree) →
    ((∀ x ∈ toJsonAll ts, x.keepMembers isTold = x) ↔
      ∀ node ∈ walkAll ts, node.word.isSome = true → ∀ r ∈ node.reading, r.IsTold)
  | [] => by simp [toJsonAll, walkAll]
  | t :: rest => by
    rw [toJsonAll, walkAll, List.forall_mem_cons, List.forall_mem_append, keepMembers_toJson_iff t,
      keepMembers_toJsonAll_iff rest, IsTold]

end

end Tree

namespace Outcome

/-- All features of the readings in an answer's trees are told. -/
def IsTold (o : Outcome) : Prop := ∀ p ∈ o.trees, p.root.IsTold

instance (o : Outcome) : Decidable o.IsTold := inferInstanceAs (Decidable (∀ p ∈ o.trees, _))

/-- An answer is told in full exactly where no feature in it has a name for inner use. -/
theorem keepMembers_toJson_iff (o : Outcome) : o.toJson.keepMembers isTold = o.toJson ↔ o.IsTold := by
  have hnames : isTold "input" = true ∧ isTold "trees" = true ∧ isTold "errors" = true ∧
    isTold "count" = true := by decide
  have hparse (p : Forest.Parse) : p.toJson.keepMembers isTold = p.toJson ↔ p.root.IsTold := by
    have hnames : isTold "root" = true ∧ isTold "sentence" = true ∧ isTold "weight" = true ∧
      isTold "bracketed" = true := by decide
    have hweight : ((p.weight.map Json.float).getD .null).keepMembers isTold =
        (p.weight.map Json.float).getD .null := by cases p.weight <;> rfl
    rw [Forest.Parse.toJson, keepMembers_object_iff]
    simp only [List.forall_mem_cons, hnames, hweight, keepMembers_strings, p.root.keepMembers_toJson_iff]
    simp [keepMembers]
  have herrors : ((o.errors.map Json.strings).getD .null).keepMembers isTold =
      (o.errors.map Json.strings).getD .null := by
    cases o.errors with
    | none => rfl
    | some errors => exact keepMembers_strings errors
  rw [toJson, keepMembers_object_iff]
  simp only [List.forall_mem_cons, hnames, herrors, keepMembers_strings, keepMembers_array_iff,
    List.forall_mem_map, hparse]
  simp [keepMembers, IsTold]

end Outcome

end Earley
