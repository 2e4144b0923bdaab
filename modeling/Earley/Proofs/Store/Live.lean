import Earley.Proofs.Store.Calls
import Earley.Proofs.Store.Kept
import Earley.Proofs.Store.Size
import Mathlib.Data.List.Nodup

namespace Earley

namespace Store

/-- The live sources after an operation. -/
def liveAfter (s : Store) (live : List Source) : Operation → List Source
  | .create name dsl supply => live ++ (s.taken? name dsl supply).toList
  | .delete id => live.filter (·.id != id)
  | .clear => []
  | .get _ | .find _ | .list | .load _ => live

/-- The sources that operations took in and have not forgotten since, in order of creation. -/
def live (s : Store) (operations : List Operation) : List Source :=
  operations.foldl s.liveAfter []

/-- The identifier of the source that an operation takes in. -/
def newId? (s : Store) : Operation → Option String
  | .create name dsl supply => (s.taken? name dsl supply).map Source.id
  | _ => none

/-- The source that an operation takes in. -/
def source? (s : Store) : Operation → Option Source
  | .create name dsl supply => s.taken? name dsl supply
  | _ => none

/-- The identifiers that operations have given out. -/
def givenOut (s : Store) (operations : List Operation) : List String :=
  operations.filterMap s.newId?

/-- A text that can be written down: its length is a number that can be read. No machine holds a text
that is longer. -/
def Operation.Writable : Operation → Prop
  | .create _ dsl _ => dsl.length < 10 ^ Decimal.maxIntDigits
  | _ => True

instance : DecidablePred Operation.Writable
  | .create _ dsl _ => inferInstanceAs (Decidable (dsl.length < _))
  | .get _ | .find _ | .list | .delete _ | .clear | .load _ => .isTrue trivial

variable {s : Store} {db : Database} {live : List Source}

private theorem countable_of_taken? {name dsl : String} {supply : Supply} {source : Source}
    (hwritable : dsl.length < 10 ^ Decimal.maxIntDigits) (h : s.taken? name dsl supply = some source) :
    source.Countable := by
  rw [taken?] at h
  split at h
  · next size hcheck =>
    cases h
    refine ⟨Int.natCast_nonneg size, (Decimal.length_numeral_le_iff (by decide)).2 ?_⟩
    exact (size_le_of_check hcheck).trans_lt hwritable
  · cases h

private theorem newId?_eq (s : Store) (operation : Operation) :
    s.newId? operation = (s.source? operation).map Source.id := by
  cases operation <;> rfl

/-- An operation adds the source that it takes in, and nothing else. -/
theorem sublist_liveAfter (s : Store) (live : List Source) (operation : Operation) :
    (s.liveAfter live operation).Sublist (live ++ (s.source? operation).toList) := by
  cases operation with
  | create name dsl supply => exact List.Sublist.refl _
  | delete id => exact List.filter_sublist.trans (List.sublist_append_left _ _)
  | clear => exact List.nil_sublist _
  | get | find | list | load => exact List.sublist_append_left _ _

/-- The first element of a list comes first in what a partial map makes of the list, if it has a value. -/
theorem filterMap_cons_append {α β : Type} (f : α → Option β) (a : α) (l : List α) :
    (a :: l).filterMap f = (f a).toList ++ l.filterMap f := by
  rw [List.filterMap_cons]
  cases f a <;> rfl

/-- The database has exactly the given sources of a store: their identifiers in order are the index, and
each has its record. -/
structure Holds (s : Store) (live : List Source) (db : Database) : Prop where
  distinct : (live.map Source.id).Nodup
  countable : ∀ source ∈ live, source.Countable
  index : db.list s.indexKey = .ok (live.map Source.id)
  record : ∀ id, db.get? (s.key id) =
    (live.find? (·.id == id)).map fun source => .text source.record.text

namespace Holds

/-- An empty database holds no sources. -/
theorem empty (s : Store) : s.Holds [] .empty where
  distinct := List.nodup_nil
  countable := List.forall_mem_nil _
  index := rfl
  record _ := rfl

/-- Databases that agree hold the same sources. -/
theorem congr {db' : Database} (h : s.Holds live db) (hagree : s.Agree db' db) : s.Holds live db' where
  distinct := h.distinct
  countable := h.countable
  index := hagree.list_index.trans h.index
  record id := (hagree _ (s.owns_key id)).trans (h.record id)

/-- A source with an identifier is found exactly if one of them has it. -/
theorem find?_isSome (live : List Source) (id : String) :
    (live.find? (·.id == id)).isSome = true ↔ id ∈ live.map Source.id := by
  simp [List.find?_isSome]

private theorem find?_eq_some (h : s.Holds live db) {source : Source} (hsource : source ∈ live) :
    live.find? (·.id == source.id) = some source := by
  obtain ⟨found, hfound⟩ := Option.isSome_iff_exists.1
    ((find?_isSome live source.id).2 (List.mem_map_of_mem hsource))
  have hid : found.id = source.id := by simpa using List.find?_some hfound
  rw [hfound, List.inj_on_of_nodup_map h.distinct (List.mem_of_find?_eq_some hfound) hsource hid]

/-- The record with an identifier is that of the live source which has it, and there is none if no source
has. -/
theorem get (h : s.Holds live db) (id : String) :
    s.get id db = .ok ((live.find? (·.id == id)).map Source.record) := by
  have hrecord := h.record id
  cases hfind : live.find? (·.id == id) with
  | none =>
    rw [hfind] at hrecord
    exact get_eq_none hrecord
  | some source =>
    rw [hfind] at hrecord
    have hread := Record.ofText?_text (h.countable source (List.mem_of_find?_eq_some hfind)).2
    exact get_eq_some hrecord (Record.text_ne_empty _) hread

/-- Every live source is found under its identifier. -/
theorem get_of_mem (h : s.Holds live db) {source : Source} (hsource : source ∈ live) :
    s.get source.id db = .ok (some source.record) := by
  rw [h.get, h.find?_eq_some hsource]
  rfl

/-- The records of live sources are found in the order of their identifiers. -/
theorem getAll (h : s.Holds live db) {part : List Source} (hpart : ∀ source ∈ part, source ∈ live) :
    s.getAll db (part.map Source.id) = .ok (part.map Source.record) := by
  induction part with
  | nil => rfl
  | cons source rest ih =>
    obtain ⟨hsource, hrest⟩ := List.forall_mem_cons.1 hpart
    rw [List.map_cons, Store.getAll, h.get_of_mem hsource, ih hrest]
    rfl

/-- All sources are listed, by their times. -/
theorem list (h : s.Holds live db) :
    s.list db = .ok ((live.map Source.record).mergeSort notAfter) := by
  have htimes : ((live.map Source.record).all fun r => r.createdAt.string?.isSome) = true := by
    rw [List.all_map]
    exact List.all_eq_true.2 fun source _ => rfl
  rw [Store.list, h.index]
  simp only [ofForm, bind, Except.bind, h.getAll fun source hsource => hsource]
  exact if_pos htimes

/-- There is a key for an identifier exactly if a live source has it. -/
theorem has_iff (h : s.Holds live db) (id : String) :
    db.has (s.key id) = true ↔ id ∈ live.map Source.id := by
  rw [Database.has_eq_isSome, h.record, Option.isSome_map, find?_isSome]

/-- A source that is saved under a new identifier is held with the others, behind them. -/
theorem save (h : s.Holds live db) {name dsl : String} {size : Nat} {id : String} {time : Instant}
    (hnew : id ∉ live.map Source.id)
    (hcountable : Source.Countable ⟨id, name, s.kind.name, dsl, time.text, size⟩) :
    s.Holds (live ++ [⟨id, name, s.kind.name, dsl, time.text, size⟩])
      (s.save name dsl size id time db).2 := by
  obtain ⟨after, hsave, hlist, hrecords⟩ := save_of_list h.index name dsl size id time
  rw [hsave]
  refine ⟨?_, ?_, ?_, fun other => ?_⟩
  · rw [List.map_append]
    exact List.nodup_append.2 ⟨h.distinct, List.nodup_cons.2 ⟨List.not_mem_nil, List.nodup_nil⟩, by grind⟩
  · exact List.forall_mem_append.2 ⟨h.countable, List.forall_mem_singleton.2 hcountable⟩
  · rw [hlist, List.map_append]
    rfl
  · rw [hrecords, List.find?_append, h.record]
    by_cases heq : other = id
    · subst heq
      have hnone : live.find? (·.id == other) = none := by
        rw [← Option.not_isSome_iff_eq_none, find?_isSome]
        exact hnew
      simp [hnone]
    · have hid : ¬id = other := fun heq' => heq heq'.symm
      simp [heq, hid]

/-- What is forgotten is the one source, and whether there was one is told. -/
theorem delete (h : s.Holds live db) (id : String) :
    ∃ after, s.delete id db = (.ok (decide (id ∈ live.map Source.id)), after) ∧
      s.Holds (live.filter (·.id != id)) after := by
  by_cases hlive : id ∈ live.map Source.id
  · obtain ⟨after, hdelete, hlist, hothers⟩ := delete_of_has h.index ((h.has_iff id).2 hlive)
    rw [decide_eq_true hlive]
    refine ⟨after, hdelete, ?_, ?_, ?_, fun other => ?_⟩
    · exact h.distinct.sublist (List.filter_sublist.map _)
    · exact fun source hsource => h.countable source (List.mem_filter.1 hsource).1
    · rw [hlist, List.filter_map]
      rfl
    · have hother : s.key other ≠ s.indexKey := key_ne_indexKey s.realm s.kind s.kind other
      simp only [hothers _ hother, find?_filter_key, h.record, s.key_injective.eq_iff]
      split <;> rfl
  · have hnot : db.has (s.key id) = false := by
      rw [← Bool.not_eq_true, h.has_iff]
      exact hlive
    have hall : live.filter (·.id != id) = live := by
      refine List.filter_eq_self.2 fun source hsource => bne_iff_ne.2 ?_
      rintro rfl
      exact hlive (List.mem_map_of_mem hsource)
    rw [decide_eq_false hlive, hall]
    exact ⟨db, delete_of_not_has hnot, h⟩

/-- Nothing is held when the store was cleared, whatever the database was like. -/
theorem clear (hrealm : s.realm.toList.all Glob.isLiteral = true) (db : Database) :
    s.Holds [] (s.clear db) := by
  have hgone {key : String} (howns : s.Owns key) : (s.clear db).get? key = none := by
    rw [Store.clear, Database.get?_eraseMatching, if_pos]
    exact (pattern_accepts_iff hrealm key).2 (stem_prefix_of_owns howns)
  refine ⟨List.nodup_nil, List.forall_mem_nil _, ?_, fun id => hgone (s.owns_key id)⟩
  rw [Database.list, hgone s.owns_indexKey]
  rfl

/-- A creation adds the source that it takes in, if it takes one. -/
theorem create (h : s.Holds live db) {name dsl : String} {supply : Supply}
    (hwritable : dsl.length < 10 ^ Decimal.maxIntDigits)
    (hnew : ∀ source, s.taken? name dsl supply = some source → source.id ∉ live.map Source.id) :
    s.Holds (live ++ (s.taken? name dsl supply).toList) (s.create name dsl db supply).2.1 := by
  rw [Store.create]
  cases hcheck : s.check dsl with
  | error refusal =>
    have htaken : s.taken? name dsl supply = none := by rw [taken?, hcheck]
    rw [htaken, Option.toList_none, List.append_nil]
    exact h
  | ok size =>
    have htaken : s.taken? name dsl supply =
        some ⟨supply.next.1.1, name, s.kind.name, dsl, supply.next.1.2.text, size⟩ := by
      rw [taken?, hcheck]
    rw [htaken]
    exact h.save (hnew _ htaken) (countable_of_taken? hwritable htaken)

/-- Each operation leaves exactly the sources that are live after it. -/
theorem perform (h : s.Holds live db) {operation : Operation}
    (hrealm : operation = .clear → s.realm.toList.all Glob.isLiteral = true) (hwritable : operation.Writable)
    (hnew : ∀ id, s.newId? operation = some id → id ∉ live.map Source.id) :
    s.Holds (s.liveAfter live operation) (s.perform db operation).2 := by
  cases operation with
  | create name dsl supply =>
    refine h.create hwritable fun source htaken => hnew source.id ?_
    rw [newId?, htaken]
    rfl
  | delete id =>
    obtain ⟨after, hdelete, hafter⟩ := h.delete id
    rw [Store.perform, hdelete]
    exact hafter
  | clear => exact Holds.clear (hrealm rfl) db
  | get | find | list | load => exact h

/-- A run keeps it, where no identifier is given out twice. Only to clear a store asks for a realm that
stands for itself in a pattern. -/
theorem after (h : s.Holds live db) {operations : List Operation}
    (hrealm : .clear ∈ operations → s.realm.toList.all Glob.isLiteral = true)
    (hwritable : ∀ operation ∈ operations, operation.Writable)
    (hids : (live.map Source.id ++ s.givenOut operations).Nodup) :
    s.Holds (operations.foldl s.liveAfter live) (s.after db operations) := by
  induction operations generalizing live db with
  | nil => exact h
  | cons operation rest ih =>
    obtain ⟨hfirst, hrest⟩ := List.forall_mem_cons.1 hwritable
    rw [givenOut, filterMap_cons_append, ← List.append_assoc] at hids
    have hclear : operation = .clear → s.realm.toList.all Glob.isLiteral = true :=
      fun hclear => hrealm (hclear ▸ List.mem_cons_self)
    refine ih (h.perform hclear hfirst fun id hid hlive => ?_) (hrealm ∘ List.mem_cons_of_mem _) hrest ?_
    · rw [hid] at hids
      exact (List.nodup_append.1 (List.nodup_append.1 hids).1).2.2 id hlive id (List.mem_singleton_self id) rfl
    · rw [newId?_eq, Option.toList_map, ← List.map_append] at hids
      exact hids.sublist (((s.sublist_liveAfter live operation).map Source.id).append_right _)

/-- What is forgotten leaves every other key as it was, but for the index. -/
theorem get?_delete (h : s.Holds live db) (id : String) {key : String} (hindex : key ≠ s.indexKey) :
    (s.delete id db).2.get? key = if key = s.key id then none else db.get? key := by
  cases hhas : db.has (s.key id) with
  | true =>
    obtain ⟨after, hdelete, -, hothers⟩ := delete_of_has h.index hhas
    rw [hdelete, hothers key hindex]
  | false =>
    rw [delete_of_not_has hhas]
    split
    · next heq =>
      rwa [Database.has_eq_isSome, Option.isSome_eq_false_iff, Option.isNone_iff_eq_none, ← heq] at hhas
    · rfl

end Holds

/-- Without sources at first, a run leaves the sources that are live. -/
theorem holds_after {operations : List Operation}
    (hrealm : .clear ∈ operations → s.realm.toList.all Glob.isLiteral = true)
    (hwritable : ∀ operation ∈ operations, operation.Writable) (hids : (s.givenOut operations).Nodup) :
    s.Holds (s.live operations) (s.after .empty operations) :=
  (Holds.empty s).after hrealm hwritable hids

/-- Any operations leave exactly the sources that are live after them. -/
theorem holds_live (hrealm : s.realm.toList.all Glob.isLiteral = true) {operations : List Operation}
    (hwritable : ∀ operation ∈ operations, operation.Writable) (hids : (s.givenOut operations).Nodup) :
    s.Holds (s.live operations) (s.after .empty operations) :=
  holds_after (fun _ => hrealm) hwritable hids

/-- After any operations that give out no identifier twice, the index of a store is the identifiers of
its live sources in order of creation, each once. Exactly these have a record; their records are what is
listed and found. A creation takes its source in whenever the text can be read, and to forget a source
changes nothing but its record and the index. -/
theorem index_records_after (hrealm : s.realm.toList.all Glob.isLiteral = true)
    {operations : List Operation} (hwritable : ∀ operation ∈ operations, operation.Writable)
    (hids : (s.givenOut operations).Nodup) :
    let db := s.after .empty operations
    let ids := (s.live operations).map Source.id
    (db.list s.indexKey = .ok ids ∧ ids.Nodup) ∧
      (∀ id, db.has (s.key id) = true ↔ id ∈ ids) ∧
      (∃ records, s.list db = .ok records ∧ records.Perm ((s.live operations).map Source.record)) ∧
      (∀ source ∈ s.live operations, s.get source.id db = .ok (some source.record)) ∧
      (∀ id, id ∉ ids → s.get id db = .ok none) ∧
      (∀ name dsl supply, (s.create name dsl db supply).1.toOption =
        (s.taken? name dsl supply).map Source.id) ∧
      ∀ id, (s.delete id db).1 = .ok (decide (id ∈ ids)) ∧
        (s.delete id db).2.list s.indexKey = .ok (ids.filter (· != id)) ∧
        ∀ key, key ≠ s.indexKey →
          (s.delete id db).2.get? key = if key = s.key id then none else db.get? key := by
  intro db ids
  have hholds : s.Holds (s.live operations) db := holds_live hrealm hwritable hids
  refine ⟨⟨hholds.index, hholds.distinct⟩, hholds.has_iff, ⟨_, hholds.list, List.mergeSort_perm _ _⟩,
    fun source hsource => hholds.get_of_mem hsource, fun id hid => ?_,
    create_of_list hholds.index, fun id => ?_⟩
  · have hnone : (s.live operations).find? (·.id == id) = none := by
      rw [← Option.not_isSome_iff_eq_none, Holds.find?_isSome]
      exact hid
    rw [hholds.get, hnone]
    rfl
  · obtain ⟨after, hdelete, hafter⟩ := hholds.delete id
    have hothers {key : String} (hindex : key ≠ s.indexKey) := hholds.get?_delete id hindex
    rw [hdelete] at hothers
    rw [hdelete]
    refine ⟨rfl, ?_, fun key hindex => hothers hindex⟩
    rw [hafter.index, List.filter_map]
    rfl

/-- Two grammars under one name, one of them for a while only, and one text that is refused. -/
def shortLived : List Operation :=
  [.create "g" "S -> N" {}, .create "g" "S -> N |" {}, .create "g" "S -> V | N V" ⟨⟨["", "x"], 1⟩, {}⟩,
    .delete "nobody", .delete "000000000001", .find "g", .create "h" "S -> V" ⟨⟨["x"], 2⟩, {}⟩, .list]

/-- A text that is refused, an identifier that is empty, a source that is forgotten, and one that was never
there. -/
theorem index_records_after_shortLived :
    ((Store.mk .grammar "buffalo").realm.toList.all Glob.isLiteral = true ∧
      (∀ operation ∈ shortLived, operation.Writable) ∧
      ((Store.mk .grammar "buffalo").givenOut shortLived).Nodup) ∧
    ((Store.mk .grammar "buffalo").after .empty shortLived).list "buffalo:grammars" = .ok ["", "x"] := by
  have hrealm : (Store.mk .grammar "buffalo").realm.toList.all Glob.isLiteral = true := by decide
  have hwritable : ∀ operation ∈ shortLived, operation.Writable := by decide +kernel
  have hids : ((Store.mk .grammar "buffalo").givenOut shortLived).Nodup := by decide +kernel
  have hlive : ((Store.mk .grammar "buffalo").live shortLived).map Source.id = ["", "x"] := by decide +kernel
  refine ⟨⟨hrealm, hwritable, hids⟩, ?_⟩
  rw [← hlive]
  exact (index_records_after hrealm hwritable hids).1.1

end Store

end Earley
