import Earley.Tree.Json

namespace Earley

namespace Json

private theorem allStrict_iff {xs : List Json} : allStrict xs = true ↔ ∀ x ∈ xs, x.isStrict = true := by
  induction xs with
  | nil => simp [allStrict]
  | cons x rest ih => rw [allStrict, Bool.and_eq_true, ih, List.forall_mem_cons]

private theorem membersStrict_iff {members : List (String × Json)} :
    membersStrict members = true ↔ ∀ m ∈ members, m.2.isStrict = true := by
  induction members with
  | nil => simp [membersStrict]
  | cons m rest ih => rw [membersStrict, Bool.and_eq_true, ih, List.forall_mem_cons]

/-- An array can be carried exactly if all its elements can. -/
theorem isStrict_array {xs : List Json} : (array xs).isStrict = true ↔ ∀ x ∈ xs, x.isStrict = true := by
  rw [isStrict, allStrict_iff]

/-- An object can be carried exactly if the values of all its members can. -/
theorem isStrict_object {members : List (String × Json)} :
    (object members).isStrict = true ↔ ∀ m ∈ members, m.2.isStrict = true := by
  rw [isStrict, membersStrict_iff]

/-- A text can be carried exactly if it has no halves of surrogate pairs in it. -/
theorem isStrict_ofText {t : AnyText} : (ofText t).isStrict = true ↔ t.isWhole = true := by
  cases t <;> simp [ofText, isStrict, AnyText.isWhole, AnyText.whole?]

/-- An array of texts can always be carried. -/
theorem isStrict_strings (xs : List String) : (strings xs).isStrict = true :=
  isStrict_array.2 (List.forall_mem_map.2 fun _ _ => rfl)

mutual

/-- What is left of a strict value is strict. -/
theorem isStrict_keepMembers (keep : String → Bool) :
    (j : Json) → j.isStrict = true → (j.keepMembers keep).isStrict = true
  | .null, h | .bool _, h | .int _, h | .float _, h | .string _, h | .halved _, h => h
  | .array xs, h => by
    rw [isStrict] at h
    rw [keepMembers, isStrict]
    exact allStrict_keepInAll keep xs h
  | .object members, h => by
    rw [isStrict] at h
    rw [keepMembers, isStrict]
    exact membersStrict_keepInMembers keep members h
  | .halvedObject _, h => by simp [isStrict] at h

private theorem allStrict_keepInAll (keep : String → Bool) :
    (xs : List Json) → allStrict xs = true → allStrict (keepInAll keep xs) = true
  | [], h => h
  | x :: rest, h => by
    rw [allStrict, Bool.and_eq_true] at h
    rw [keepInAll, allStrict, Bool.and_eq_true]
    exact ⟨isStrict_keepMembers keep x h.1, allStrict_keepInAll keep rest h.2⟩

private theorem membersStrict_keepInMembers (keep : String → Bool) :
    (members : List (String × Json)) → membersStrict members = true →
      membersStrict (keepInMembers keep members) = true
  | [], h => h
  | (name, x) :: rest, h => by
    rw [membersStrict, Bool.and_eq_true] at h
    rw [keepInMembers]
    split
    · rw [membersStrict, Bool.and_eq_true]
      exact ⟨isStrict_keepMembers keep x h.1, membersStrict_keepInMembers keep rest h.2⟩
    · exact membersStrict_keepInMembers keep rest h.2

end

variable {keep : String → Bool}

/-- What is kept of an array can be carried exactly if what is kept of each element can. -/
theorem isStrict_keepMembers_array {xs : List Json} : ((array xs).keepMembers keep).isStrict = true ↔
    ∀ x ∈ xs, (x.keepMembers keep).isStrict = true := by
  rw [keepMembers, isStrict_array]
  induction xs with
  | nil => simp [keepInAll]
  | cons x rest ih => rw [keepInAll, List.forall_mem_cons, List.forall_mem_cons, ih]

/-- What is kept of an object can be carried exactly if what is kept of each kept member can. -/
theorem isStrict_keepMembers_object {members : List (String × Json)} :
    ((object members).keepMembers keep).isStrict = true ↔
      ∀ m ∈ members, keep m.1 = true → (m.2.keepMembers keep).isStrict = true := by
  rw [keepMembers, isStrict_object]
  induction members with
  | nil => simp [keepInMembers]
  | cons m rest ih =>
    obtain ⟨name, x⟩ := m
    rw [keepInMembers, List.forall_mem_cons]
    by_cases hkeep : keep name = true
    · rw [if_pos hkeep, List.forall_mem_cons, ih]
      simp [hkeep]
    · rw [if_neg hkeep, ih]
      simp [hkeep]

end Json

open Json

/-- A reading of a word can always be carried. -/
theorem Reading.isStrict_toJson (r : Reading) : r.toJson.isStrict = true := by
  have hvalue (v : FeatureValue) : v.toJson.isStrict = true := by cases v <;> rfl
  rw [toJson, isStrict_object]
  simp only [List.forall_mem_cons]
  refine ⟨rfl, rfl, rfl, ?_, List.forall_mem_nil _⟩
  split
  · rfl
  · exact isStrict_object.2 (List.forall_mem_map.2 fun f _ => hvalue f.2)

namespace Tree

mutual

/-- A tree can always be carried. -/
theorem isStrict_toJson : (t : Tree) → t.toJson.isStrict = true
  | .node s cs word span reading => by
    have hchildren := allStrict_toJsonAll cs
    have hreading : ((reading.map Reading.toJson).getD .null).isStrict = true := by
      cases reading with
      | none => rfl
      | some r => exact r.isStrict_toJson
    rw [toJson, isStrict_object]
    cases word <;> simp [wordMembers, spanJson, isStrict, allStrict, hchildren, hreading]

private theorem allStrict_toJsonAll : (ts : List Tree) → allStrict (toJsonAll ts) = true
  | [] => rfl
  | t :: rest => by
    rw [toJsonAll, allStrict, isStrict_toJson t, allStrict_toJsonAll rest]
    rfl

end

end Tree

/-- A tree with a finite weight, or with none, can be carried. -/
theorem Forest.Parse.isStrict_toJson {p : Forest.Parse} (h : ∀ w ∈ p.weight, w.isFinite = true) :
    p.toJson.isStrict = true := by
  have hweight : ((p.weight.map Json.float).getD .null).isStrict = true := by
    cases hw : p.weight with
    | none => rfl
    | some w => exact h w hw
  rw [toJson, isStrict_object]
  simp only [List.forall_mem_cons]
  exact ⟨p.root.isStrict_toJson, isStrict_strings _, hweight, rfl, List.forall_mem_nil _⟩

/-- No tree that a parser found has a weight that is not finite. -/
def Outcome.FiniteWeights (o : Outcome) : Prop := ∀ p ∈ o.trees, ∀ w ∈ p.weight, w.isFinite = true

/-- The answer of a parser can be carried if all weights in it are finite. -/
theorem Outcome.isStrict_toJson {o : Outcome} (h : o.FiniteWeights) : o.toJson.isStrict = true := by
  have htrees : (Json.array (o.trees.map Forest.Parse.toJson)).isStrict = true :=
    isStrict_array.2 (List.forall_mem_map.2 fun p hp => Forest.Parse.isStrict_toJson (h p hp))
  have herrors : ((o.errors.map Json.strings).getD .null).isStrict = true := by
    cases o.errors with
    | none => rfl
    | some errors => exact isStrict_strings errors
  rw [toJson, isStrict_object]
  simp only [List.forall_mem_cons]
  exact ⟨isStrict_strings _, htrees, herrors, rfl, List.forall_mem_nil _⟩

/-- As long as trees and their weights are kept, what is kept of a parser's answer can be carried exactly
where all weights are finite. -/
theorem Outcome.isStrict_keepMembers_iff {o : Outcome} {keep : String → Bool} (htrees : keep "trees" = true)
    (hweight : keep "weight" = true) : (o.toJson.keepMembers keep).isStrict = true ↔ o.FiniteWeights := by
  refine ⟨fun h p hp w hw => ?_, fun h => isStrict_keepMembers keep _ (isStrict_toJson h)⟩
  have hmember : ("trees", Json.array (o.trees.map Forest.Parse.toJson)) ∈ [("input", .strings o.input),
      ("trees", .array (o.trees.map Forest.Parse.toJson)),
      ("errors", (o.errors.map Json.strings).getD .null), ("count", .int o.trees.length)] := by simp
  have hkept := isStrict_keepMembers_array.1 (isStrict_keepMembers_object.1 h _ hmember htrees) _
    (List.mem_map_of_mem hp)
  have hmember' : ("weight", Json.float w) ∈ [("root", p.root.toJson), ("sentence", .strings p.sentence),
      ("weight", (p.weight.map Json.float).getD .null), ("bracketed", .string p.root.bracketed)] := by
    simp [Option.mem_def.1 hw]
  exact isStrict_keepMembers_object.1 hkept _ hmember' hweight

end Earley
