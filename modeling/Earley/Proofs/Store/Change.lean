import Earley.Proofs.Store.Keys

namespace Earley

namespace Store

/-- The source that a creation takes in; there is none where the text cannot be read. -/
def taken? (s : Store) (name dsl : String) (supply : Supply) : Option Source :=
  match s.check dsl with
  | .ok size => some ⟨supply.next.1.1, name, s.kind.name, dsl, supply.next.1.2.text, size⟩
  | .error _ => none

variable {s : Store} {db : Database} {ids : List String}

/-- A record is always taken in where the index is a list, and no other record is touched. -/
theorem keep_of_list (h : db.list s.indexKey = .ok ids) (id : String) (record : Record) :
    ∃ after, s.keep id record db = (.ok (), after) ∧ after.list s.indexKey = .ok (ids ++ [id]) ∧
      ∀ other, after.get? (s.key other) =
        if other = id then some (.text record.text) else db.get? (s.key other) := by
  unfold keep
  extract_lets withRecord
  have hindex : s.indexKey ≠ s.key id := (key_ne_indexKey s.realm s.kind s.kind id).symm
  have hids : withRecord.list s.indexKey = .ok ids :=
    (Database.list_of_get?_eq (Database.get?_put_of_ne hindex _)).trans h
  rw [Database.push_of_list hids]
  refine ⟨_, rfl, Database.list_putList _ _ _, fun other => ?_⟩
  have hother : s.key other ≠ s.indexKey := key_ne_indexKey s.realm s.kind s.kind other
  simp only [Database.get?_putList_of_ne hother, withRecord, Database.get?_put, s.key_injective.eq_iff]

/-- A source is always taken in where the index is a list, and no other record is touched. -/
theorem save_of_list (h : db.list s.indexKey = .ok ids) (name dsl : String) (size : Nat)
    (id : String) (time : Instant) :
    ∃ after, s.save name dsl size id time db = (.ok ⟨id, name, s.kind.name, dsl, time.text, size⟩, after) ∧
      after.list s.indexKey = .ok (ids ++ [id]) ∧
      ∀ other, after.get? (s.key other) =
        if other = id then some (.text (Source.record ⟨id, name, s.kind.name, dsl, time.text, size⟩).text)
        else db.get? (s.key other) := by
  obtain ⟨after, hkeep, hlist, hrecords⟩ :=
    keep_of_list h id (Source.record ⟨id, name, s.kind.name, dsl, time.text, size⟩)
  exact ⟨after, by rw [save, hkeep]; rfl, hlist, hrecords⟩

/-- A creation answers with the identifier of the source that it takes in. -/
theorem create_of_list (h : db.list s.indexKey = .ok ids) (name dsl : String)
    (supply : Supply) :
    (s.create name dsl db supply).1.toOption = (s.taken? name dsl supply).map Source.id := by
  rw [Store.create, taken?]
  cases s.check dsl with
  | error refusal => rfl
  | ok size =>
    obtain ⟨after, hsave, -⟩ := save_of_list h name dsl size supply.next.1.1 supply.next.1.2
    dsimp only
    rw [hsave]
    rfl

/-- A record that is there is forgotten, with its identifier; all else stays. -/
theorem delete_of_has (h : db.list s.indexKey = .ok ids) {id : String} (hhas : db.has (s.key id) = true) :
    ∃ after, s.delete id db = (.ok true, after) ∧ after.list s.indexKey = .ok (ids.filter (· != id)) ∧
      ∀ key, key ≠ s.indexKey → after.get? key = if key = s.key id then none else db.get? key := by
  have hindex : s.indexKey ≠ s.key id := (key_ne_indexKey s.realm s.kind s.kind id).symm
  have hids : (db.erase (s.key id)).list s.indexKey = .ok ids := by
    rw [← h]
    exact Database.list_of_get?_eq (by rw [Database.get?_erase, if_neg hindex])
  obtain ⟨after, hremove, hlist, hothers⟩ := Database.remove_of_list hids id
  refine ⟨after, ?_, hlist, fun key hkey => ?_⟩
  · rw [delete, if_pos hhas]
    dsimp only
    rw [hremove]
  · rw [hothers key hkey, Database.get?_erase]

/-- Nothing changes where there is nothing to forget. -/
theorem delete_of_not_has {id : String} (h : db.has (s.key id) = false) :
    s.delete id db = (.ok false, db) := by
  rw [delete, h]
  rfl

variable {key : String}

/-- A record that is kept leaves alone the keys that are not the store's own, also where its index is no
list. -/
theorem get?_keep_of_not_owns (howns : ¬s.Owns key) (id : String) (record : Record) (db : Database) :
    (s.keep id record db).2.get? key = db.get? key := by
  have hrecord : key ≠ s.key id := fun heq => howns (heq ▸ s.owns_key id)
  have hindex : key ≠ s.indexKey := fun heq => howns (heq ▸ s.owns_indexKey)
  unfold keep
  extract_lets withRecord
  rw [Database.push]
  cases withRecord.list s.indexKey with
  | error e => exact Database.get?_put_of_ne hrecord _
  | ok ids => exact (Database.get?_putList_of_ne hindex _).trans (Database.get?_put_of_ne hrecord _)

/-- A source that is saved leaves alone the keys that are not the store's own. -/
theorem get?_save_of_not_owns (howns : ¬s.Owns key) (name dsl : String) (size : Nat) (id : String)
    (time : Instant) (db : Database) : (s.save name dsl size id time db).2.get? key = db.get? key :=
  get?_keep_of_not_owns howns id _ db

/-- A source that is forgotten leaves alone the keys that are not the store's own. -/
theorem get?_delete_of_not_owns (howns : ¬s.Owns key) (id : String) (db : Database) :
    (s.delete id db).2.get? key = db.get? key := by
  have hrecord : key ≠ s.key id := fun heq => howns (heq ▸ s.owns_key id)
  have hindex : key ≠ s.indexKey := fun heq => howns (heq ▸ s.owns_indexKey)
  have herased : (db.erase (s.key id)).get? key = db.get? key := by
    rw [Database.get?_erase, if_neg hrecord]
  rw [delete]
  split
  · dsimp only
    cases hids : (db.erase (s.key id)).list s.indexKey with
    | error e => rw [Database.remove, hids]; exact herased
    | ok ids =>
      obtain ⟨after, hremove, -, hothers⟩ := Database.remove_of_list hids id
      rw [hremove]
      exact (hothers key hindex).trans herased
  · rfl

/-- Clearing a store leaves alone the keys that do not begin with its stem. -/
theorem get?_clear_of_not_stem (hrealm : s.realm.toList.all Glob.isLiteral = true)
    (hstem : ¬s.stem <+: key.toList) (db : Database) : (s.clear db).get? key = db.get? key := by
  rw [clear, Database.get?_eraseMatching, if_neg]
  rwa [pattern_accepts_iff hrealm]

end Store

end Earley
