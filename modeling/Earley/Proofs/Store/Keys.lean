import Earley.Proofs.Database.Lookup
import Earley.Store

namespace Earley

namespace Glob

/-- Whether a character stands for itself in a pattern. -/
def isLiteral (c : Char) : Bool := !(c == '*' || c == '?' || c == '[' || c == '\\')

private theorem accepts_literal_cons {c d : Char} (hc : isLiteral c = true) (pattern text : List Char) :
    accepts (c :: pattern) (d :: text) = (c == d && accepts pattern text) := by
  rw [accepts.eq_def]
  split <;> simp_all [isLiteral]

private theorem accepts_star (text : List Char) : accepts ['*'] text = true := by
  induction text with
  | nil => simp [accepts]
  | cons c text ih => rw [accepts, ih, Bool.or_true]

/-- Characters and a star behind them accept the texts that begin with the characters. -/
theorem accepts_append_star {front : List Char} (hfront : front.all isLiteral = true) (text : List Char) :
    accepts (front ++ ['*']) text = true ↔ front <+: text := by
  induction front generalizing text with
  | nil => simp [accepts_star]
  | cons c rest ih =>
    rw [List.all_cons, Bool.and_eq_true_iff] at hfront
    cases text with
    | nil =>
      rw [accepts.eq_def]
      split <;> simp_all [isLiteral]
    | cons d text =>
      rw [List.cons_append, accepts_literal_cons hfront.1, Bool.and_eq_true_iff, beq_iff_eq,
        ih hfront.2, List.cons_prefix_cons]

end Glob

namespace Store

private theorem toList_key (s : Store) (id : String) :
    (s.key id).toList = s.realm.toList ++ (':' :: (s.kind.name.toList ++ ':' :: id.toList)) := by
  simp [key]

private theorem toList_indexKey (s : Store) :
    s.indexKey.toList = s.realm.toList ++ (':' :: (s.kind.name.toList ++ ['s'])) := by
  simp [indexKey]

/-- No record has the key of an index. -/
theorem key_ne_indexKey (realm : String) (kind kind' : SourceKind) (id : String) :
    (Store.mk kind realm).key id ≠ (Store.mk kind' realm).indexKey := by
  intro h
  have hchars := congrArg String.toList h
  rw [toList_key, toList_indexKey] at hchars
  have hbehind := List.cons.inj (List.append_cancel_left hchars)
  cases kind <;> cases kind' <;> simp [SourceKind.name] at hbehind

/-- Records of stores of different kinds have different keys. -/
theorem kind_eq_of_key_eq {realm : String} {kind kind' : SourceKind} {id id' : String}
    (h : (Store.mk kind realm).key id = (Store.mk kind' realm).key id') : kind = kind' := by
  have hchars := congrArg String.toList h
  rw [toList_key, toList_key] at hchars
  have hbehind := List.cons.inj (List.append_cancel_left hchars)
  cases kind <;> cases kind' <;> simp [SourceKind.name] at hbehind ⊢

/-- No two identifiers have one key. -/
theorem key_injective (s : Store) : Function.Injective s.key := by
  intro id id' h
  have hchars := congrArg String.toList h
  rw [toList_key, toList_key] at hchars
  have hbehind := List.append_cancel_left (List.cons.inj (List.append_cancel_left hchars)).2
  exact String.toList_inj.1 (List.cons.inj hbehind).2

/-- What all keys of a store begin with. -/
def stem (s : Store) : List Char := s.realm.toList ++ ':' :: s.kind.name.toList

/-- Whether a key is the index of a store or one of its records. -/
def Owns (s : Store) (key : String) : Prop := key = s.indexKey ∨ ∃ id, key = s.key id

/-- The key of its index is the store's own. -/
theorem owns_indexKey (s : Store) : s.Owns s.indexKey := .inl rfl

/-- The keys of its records are the store's own. -/
theorem owns_key (s : Store) (id : String) : s.Owns (s.key id) := .inr ⟨id, rfl⟩

/-- All keys of a store begin with its stem. -/
theorem stem_prefix_of_owns {s : Store} {key : String} (h : s.Owns key) : s.stem <+: key.toList := by
  rcases h with rfl | ⟨id, rfl⟩
  · exact ⟨['s'], by rw [toList_indexKey, stem, List.append_assoc, List.cons_append]⟩
  · exact ⟨':' :: id.toList, by rw [toList_key, stem, List.append_assoc, List.cons_append]⟩

/-- A bare store has no name of its own in its keys, so that other stores own keys with its stem. -/
theorem not_stem_prefix_of_owns {realm : String} {kind kind' : SourceKind} {key : String}
    (hbare : kind ≠ .bare)
    (hne : kind ≠ kind') (h : (Store.mk kind' realm).Owns key) :
    ¬(Store.mk kind realm).stem <+: key.toList := by
  rintro ⟨rest, hrest⟩
  rcases h with rfl | ⟨id, rfl⟩
  · rw [toList_indexKey, stem, List.append_assoc, List.cons_append] at hrest
    have hbehind := List.cons.inj (List.append_cancel_left hrest)
    cases kind <;> cases kind' <;> simp [SourceKind.name] at hbehind hbare hne
  · rw [toList_key, stem, List.append_assoc, List.cons_append] at hrest
    have hbehind := List.cons.inj (List.append_cancel_left hrest)
    cases kind <;> cases kind' <;> simp [SourceKind.name] at hbehind hbare hne

/-- Without special characters in the realm, the pattern accepts exactly the keys that begin with the
stem. -/
theorem pattern_accepts_iff {s : Store} (hrealm : s.realm.toList.all Glob.isLiteral = true) (key : String) :
    Glob.accepts s.pattern.toList key.toList = true ↔ s.stem <+: key.toList := by
  have hpattern : s.pattern.toList = s.stem ++ ['*'] := by simp [pattern, stem]
  have hname : s.kind.name.toList.all Glob.isLiteral = true := by cases s.kind <;> decide
  rw [hpattern, Glob.accepts_append_star]
  rw [stem, List.all_append, List.all_cons, hrealm, hname]
  rfl

end Store

end Earley
