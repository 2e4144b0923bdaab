import Earley.Proofs.Store.Keys
import Earley.Proofs.Store.Record
import Earley.Proofs.Store.Size

namespace Earley

/-- A text that a store was given to keep under a name. -/
structure Deposit where
  id : String
  name : AnyText
  dsl : AnyText
  time : String
  size : Nat

namespace Deposit

/-- The record of what a store of some kind was given. -/
def record (kind : SourceKind) (d : Deposit) : Record :=
  .ofTexts d.id d.name kind.name d.dsl d.time d.size

/-- The text was read on its way in, and its count of rules or readings can be written down. -/
structure Sound (kind : SourceKind) (d : Deposit) : Prop where
  measured : kind.measure d.dsl.shown = .ok d.size
  countable : d.size < 10 ^ Decimal.maxIntDigits

/-- The text of a sound grammar can be read. -/
theorem Sound.exists_grammar {d : Deposit} (h : d.Sound .grammar) :
    ∃ g, Grammar.ofText d.dsl.shown = .ok g := by
  obtain ⟨g, hread, -⟩ := Store.check_grammar_iff.1 ((Store.check_iff (s := ⟨.grammar, ""⟩)).2 h.measured)
  exact ⟨g, hread⟩

/-- The text of a sound lexicon can be read. -/
theorem Sound.exists_lexicon {d : Deposit} (h : d.Sound .lexicon) :
    ∃ lex, Lexicon.ofText d.dsl.shown = .ok lex := by
  obtain ⟨lex, hread, -⟩ := Store.check_lexicon_iff.1 ((Store.check_iff (s := ⟨.lexicon, ""⟩)).2 h.measured)
  exact ⟨lex, hread⟩

end Deposit

/-- An entry that a store has made, of a text with a property. -/
inductive Stored.Kept (realm : String) (P : SourceKind → Deposit → Prop) : String × Stored → Prop
  | index (kind : SourceKind) (ids : List String) : Kept realm P ((Store.mk kind realm).indexKey, .list ids)
  | record {kind : SourceKind} (id : String) {d : Deposit} : d.Sound kind → P kind d →
      Kept realm P ((Store.mk kind realm).key id, .text (d.record kind).text)

namespace Database

/-- Only stores of one realm have written to the database, and only texts with a property. -/
def Kept (realm : String) (P : SourceKind → Deposit → Prop) (db : Database) : Prop :=
  ∀ e ∈ db.entries, Stored.Kept realm P e

variable {realm : String} {P : SourceKind → Deposit → Prop} {db : Database}

theorem Kept.empty : Kept realm P empty := fun _ he => by cases he

/-- What is left of such a database when a key is erased is one too. -/
theorem Kept.erase (h : db.Kept realm P) (key : String) : (db.erase key).Kept realm P :=
  fun e he => h e (List.mem_filter.1 he).1

/-- Such a database stays one when an entry is put that a store has made. -/
theorem Kept.put {key : String} {value : Stored} (h : db.Kept realm P)
    (hnew : Stored.Kept realm P (key, value)) : (db.put key value).Kept realm P := by
  intro e he
  rw [Database.put] at he
  split at he
  · obtain ⟨old, hold, rfl⟩ := List.mem_map.1 he
    split
    · exact hnew
    · exact h old hold
  · rcases List.mem_append.1 he with hold | hlast
    · exact h e hold
    · rwa [List.mem_singleton.1 hlast]

/-- What stands under the key of an index is a list: no record has that key. -/
theorem Kept.list_index (h : db.Kept realm P) (kind : SourceKind) :
    ∃ ids, db.list (Store.mk kind realm).indexKey = .ok ids := by
  rw [list]
  cases hget : db.get? (Store.mk kind realm).indexKey with
  | none => exact ⟨[], rfl⟩
  | some value =>
    generalize hkey : (Store.mk kind realm).indexKey = key at hget
    cases h _ (mem_of_get? hget) with
    | index kind' ids => exact ⟨ids, rfl⟩
    | record id hsound => exact absurd hkey.symm (Store.key_ne_indexKey realm _ kind id)

/-- Such a database stays one when an index is put. -/
theorem Kept.putList (h : db.Kept realm P) (kind : SourceKind) (ids : List String) :
    (db.putList (Store.mk kind realm).indexKey ids).Kept realm P := by
  rw [Database.putList]
  split
  · exact h.erase _
  · exact h.put (.index kind ids)

end Database

namespace Store

variable {s : Store} {P : SourceKind → Deposit → Prop} {db : Database}

/-- A record that was written for a text with a property. -/
def Written (s : Store) (P : SourceKind → Deposit → Prop) (r : Record) : Prop :=
  ∃ d : Deposit, d.Sound s.kind ∧ P s.kind d ∧ r = d.record s.kind

/-- Where there is no entry, no record is found. -/
theorem get_eq_none {id : String} (hget : db.get? (s.key id) = none) : s.get id db = .ok none := by
  rw [get, Database.text?, hget]

/-- An entry with a text that is read as a record is found as that record. -/
theorem get_eq_some {id text : String} {r : Record} (hget : db.get? (s.key id) = some (.text text))
    (hne : text ≠ "") (hread : Record.ofText? text = .ok r) : s.get id db = .ok (some r) := by
  rw [get, Database.text?, hget]
  split
  · next heq => cases heq
  · next heq => cases heq
  · next heq =>
    cases heq
    exact absurd rfl hne
  · next heq =>
    cases heq
    rw [hread]

/-- The record of what was taken in is read back, since its count is not too long. -/
theorem ofText?_record {kind : SourceKind} {d : Deposit} (h : d.Sound kind) :
    Record.ofText? (d.record kind).text = .ok (d.record kind) :=
  Record.ofText?_ofTexts _ _ _ _ _ ((Decimal.length_numeral_le_iff (by decide)).2 h.countable)

/-- In a database that only stores have written to, looking for an identifier never goes wrong: what
is found is the record of a text that was taken in. -/
theorem exists_get (h : db.Kept s.realm P) (id : String) :
    ∃ found, s.get id db = .ok found ∧ ∀ r ∈ found, s.Written P r := by
  cases hget : db.get? (s.key id) with
  | none => exact ⟨none, get_eq_none hget, by simp⟩
  | some value =>
    generalize hkey : s.key id = key at hget
    cases h _ (Database.mem_of_get? hget) with
    | index kind ids => exact absurd hkey (key_ne_indexKey s.realm s.kind kind id)
    | @record kind id' d hsound hd =>
      obtain rfl : s.kind = kind := kind_eq_of_key_eq hkey
      refine ⟨some (d.record s.kind), ?_, fun r hr => ⟨d, hsound, hd, (Option.some.inj hr).symm⟩⟩
      exact get_eq_some (hkey ▸ hget) (Record.text_ne_empty _) (ofText?_record hsound)

private theorem exists_getAll (h : db.Kept s.realm P) (ids : List String) :
    ∃ records, s.getAll db ids = .ok records ∧ ∀ r ∈ records, s.Written P r := by
  induction ids with
  | nil => exact ⟨[], rfl, by simp⟩
  | cons id rest ih =>
    obtain ⟨found, hget, hfound⟩ := exists_get h id
    obtain ⟨others, hothers, hwritten⟩ := ih
    refine ⟨found.toList ++ others, by rw [getAll, hget, hothers]; rfl, fun r hr => ?_⟩
    rcases List.mem_append.1 hr with hfirst | hrest
    · exact hfound r (Option.mem_toList.1 hfirst)
    · exact hwritten r hrest

/-- Written records have times that can be compared, so that there is an order for them. -/
theorem exists_latestFirst {records : List Record} (h : ∀ r ∈ records, s.Written P r) :
    ∃ sorted, latestFirst records = .ok sorted ∧ ∀ r ∈ sorted, s.Written P r := by
  have htimes : (records.all fun r => r.createdAt.string?.isSome) = true := by
    refine List.all_eq_true.2 fun r hr => ?_
    obtain ⟨d, -, -, rfl⟩ := h r hr
    rfl
  exact ⟨_, if_pos htimes, fun r hr => h r (List.mem_mergeSort.1 hr)⟩

/-- Listing never goes wrong either. -/
theorem exists_list (h : db.Kept s.realm P) :
    ∃ records, s.list db = .ok records ∧ ∀ r ∈ records, s.Written P r := by
  obtain ⟨ids, hids⟩ := h.list_index s.kind
  obtain ⟨records, hall, hwritten⟩ := exists_getAll h ids
  obtain ⟨sorted, hsorted, hwritten'⟩ := exists_latestFirst hwritten
  exact ⟨sorted, by rw [list, hids, ← hsorted]; simp only [ofForm, bind, Except.bind, hall], hwritten'⟩

private theorem exists_find (h : db.Kept s.realm P) (idOrName : String) :
    ∃ found, s.find idOrName db = .ok found ∧ ∀ r ∈ found, s.Written P r := by
  obtain ⟨found, hget, hfound⟩ := exists_get h idOrName
  obtain ⟨records, hlist, hwritten⟩ := exists_list h
  cases found with
  | some r => exact ⟨some r, by rw [find, hget]; rfl, hfound⟩
  | none =>
    refine ⟨records.find? (·.isNamed idOrName), by rw [find, hget]; simp only [bind, Except.bind, hlist], ?_⟩
    exact fun r hr => hwritten r (List.mem_of_find?_eq_some hr)

/-- The text of what is found is one that was taken in. -/
theorem exists_findText (h : db.Kept s.realm P) (idOrName : String) :
    ∃ found, s.findText idOrName db = .ok found ∧
      ∀ dsl ∈ found, ∃ d : Deposit, d.Sound s.kind ∧ P s.kind d ∧ d.dsl = dsl := by
  obtain ⟨found, hfind, hfound⟩ := exists_find h idOrName
  cases found with
  | none => exact ⟨none, by rw [findText, hfind], by simp⟩
  | some r =>
    obtain ⟨d, hsound, hd, rfl⟩ := hfound r rfl
    have hdsl : (d.record s.kind).dsl.text? = some d.dsl := Json.text?_ofText d.dsl
    refine ⟨some d.dsl, by rw [findText, hfind]; simp only [hdsl], fun dsl heq => ?_⟩
    exact ⟨d, hsound, hd, Option.some.inj heq⟩

/-- Whatever reads the texts that were taken in, can load all that is found. -/
theorem exists_loadAs {α β : Type} {read : AnyText → Except β α} {Q : α → Prop} (h : db.Kept s.realm P)
    (hread : ∀ d : Deposit, d.Sound s.kind → P s.kind d → ∃ value, read d.dsl = .ok value ∧ Q value)
    (fault : β → LoadFault) (idOrName : String) :
    ∃ found, s.loadAs read fault idOrName db = .ok found ∧ ∀ value ∈ found, Q value := by
  obtain ⟨found, hfind, hfound⟩ := exists_findText h idOrName
  cases found with
  | none => exact ⟨none, by rw [loadAs, hfind], by simp⟩
  | some dsl =>
    obtain ⟨d, hsound, hd, rfl⟩ := hfound dsl rfl
    obtain ⟨value, hvalue, hq⟩ := hread d hsound hd
    refine ⟨some value, ?_, fun value' heq => Option.some.inj heq ▸ hq⟩
    rw [loadAs, hfind]
    dsimp only
    rw [hvalue]
    rfl

/-- A record is always taken in; where its text was read and has the property, the database stays one
that only stores have written to. -/
theorem exists_keep (h : db.Kept s.realm P) (id : String) (d : Deposit) :
    ∃ after, s.keep id (d.record s.kind) db = (.ok (), after) ∧
      (d.Sound s.kind → P s.kind d → after.Kept s.realm P) := by
  obtain ⟨ids, hids⟩ := h.list_index s.kind
  have hindex : (Store.mk s.kind s.realm).indexKey ≠ s.key id :=
    (key_ne_indexKey s.realm s.kind s.kind id).symm
  rw [Database.list, ← Database.get?_put_of_ne hindex] at hids
  refine ⟨_, ?_, fun hsound hd => (h.put (.record id hsound hd)).putList s.kind (ids ++ [id])⟩
  rw [keep, Database.push, Database.list, hids]
  rfl

/-- Forgetting never goes wrong either, and leaves a database that only stores have written to. -/
theorem exists_delete (h : db.Kept s.realm P) (id : String) :
    ∃ found after, s.delete id db = (.ok found, after) ∧ after.Kept s.realm P := by
  have herase := h.erase (s.key id)
  obtain ⟨ids, hids⟩ := herase.list_index s.kind
  rw [delete]
  split
  · dsimp only
    rw [Database.remove, hids]
    refine ⟨true, _, rfl, ?_⟩
    dsimp only
    split
    · exact herase.putList s.kind _
    · exact herase
  · exact ⟨false, db, rfl, h⟩

end Store

end Earley
