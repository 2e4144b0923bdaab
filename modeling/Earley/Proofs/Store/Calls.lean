import Earley.Proofs.Store.Change

namespace Earley

namespace Store

/-- What may be asked of a store. A creation comes with the supply that it takes its identifier and its
time from. -/
inductive Operation where
  | create (name dsl : String) (supply : Supply)
  | get (id : String)
  | find (idOrName : String)
  | list
  | delete (id : String)
  | clear
  | load (idOrName : String)
deriving DecidableEq, Repr

/-- What a store answers. -/
inductive Answer where
  | created (id : Except Fault String)
  | found (record : Except Fault (Option Record))
  | listed (records : Except Fault (List Record))
  | deleted (known : Except Fault Bool)
  | loadedGrammar (g : Except LoadFault (Option Grammar))
  | loadedLexicon (lex : Except LoadFault (Option Lexicon))
  | silent

/-- What a store loads; a bare store has nothing to load. -/
def load (s : Store) (idOrName : String) (db : Database) : Answer :=
  match s.kind with
  | .grammar => .loadedGrammar (loadGrammar s.realm idOrName db)
  | .lexicon => .loadedLexicon (loadLexicon s.realm idOrName db)
  | .bare => .silent

/-- The answer of a store, and the database after it. -/
def perform (s : Store) (db : Database) : Operation → Answer × Database
  | .create name dsl supply =>
    let (id, db, _) := s.create name dsl db supply
    (.created id, db)
  | .get id => (.found (s.get id db), db)
  | .find idOrName => (.found (s.find idOrName db), db)
  | .list => (.listed (s.list db), db)
  | .delete id =>
    let (known, db) := s.delete id db
    (.deleted known, db)
  | .clear => (.silent, s.clear db)
  | .load idOrName => (s.load idOrName db, db)

/-- The database after operations on one store. -/
def after (s : Store) (db : Database) (operations : List Operation) : Database :=
  operations.foldl (fun db operation => (s.perform db operation).2) db

/-- A call to one of the stores of a realm. -/
structure Call where
  kind : SourceKind
  operation : Operation
deriving DecidableEq, Repr

namespace Call

/-- The answer to a call, and the database after it. -/
def perform (realm : String) (db : Database) (c : Call) : Answer × Database :=
  (Store.mk c.kind realm).perform db c.operation

/-- The database after calls. -/
def after (realm : String) (db : Database) (calls : List Call) : Database :=
  calls.foldl (fun db c => (c.perform realm db).2) db

/-- The answers to calls, each with the kind of the store that gives it. -/
def answers (realm : String) : Database → List Call → List (SourceKind × Answer)
  | _, [] => []
  | db, c :: rest =>
    (c.kind, (c.perform realm db).1) :: answers realm (c.perform realm db).2 rest

/-- What the calls ask of one store. -/
def operationsOf (kind : SourceKind) (calls : List Call) : List Operation :=
  (calls.filter (·.kind == kind)).map operation

end Call

/-- Two databases hold the same under all keys of a store. -/
def Agree (s : Store) (db db' : Database) : Prop := ∀ key, s.Owns key → db.get? key = db'.get? key

namespace Agree

variable {s : Store} {db db' : Database}

theorem refl (s : Store) (db : Database) : s.Agree db db := fun _ _ => rfl

theorem trans {db'' : Database} (h : s.Agree db db') (h' : s.Agree db' db'') : s.Agree db db'' :=
  fun key howns => (h key howns).trans (h' key howns)

/-- The index is the same in databases that agree. -/
theorem list_index (h : s.Agree db db') : db.list s.indexKey = db'.list s.indexKey :=
  Database.list_of_get?_eq (h _ s.owns_indexKey)

/-- The same record is found in databases that agree. -/
theorem get (h : s.Agree db db') (id : String) : s.get id db = s.get id db' := by
  rw [Store.get, Store.get, Database.text?, Database.text?, h _ (s.owns_key id)]

/-- The same records are found in databases that agree. -/
theorem getAll (h : s.Agree db db') (ids : List String) : s.getAll db ids = s.getAll db' ids := by
  induction ids with
  | nil => rfl
  | cons id rest ih => rw [Store.getAll, Store.getAll, h.get id, ih]

/-- Databases that agree have the same list of records. -/
theorem list (h : s.Agree db db') : s.list db = s.list db' := by
  rw [Store.list, Store.list, h.list_index]
  congr 1
  funext ids
  rw [h.getAll ids]

/-- By a name, too, the same record is found in databases that agree. -/
theorem find (h : s.Agree db db') (idOrName : String) : s.find idOrName db = s.find idOrName db' := by
  rw [Store.find, Store.find, h.get, h.list]

/-- The same text is found in databases that agree. -/
theorem findText (h : s.Agree db db') (idOrName : String) :
    s.findText idOrName db = s.findText idOrName db' := by
  rw [Store.findText, Store.findText, h.find]

/-- Whatever reads the texts loads the same from databases that agree. -/
theorem loadAs {α β : Type} (h : s.Agree db db') (read : AnyText → Except β α) (fault : β → LoadFault)
    (idOrName : String) : s.loadAs read fault idOrName db = s.loadAs read fault idOrName db' := by
  rw [Store.loadAs, Store.loadAs, h.findText]

/-- A load has the same answer in databases that agree. -/
theorem load (h : s.Agree db db') (idOrName : String) : s.load idOrName db = s.load idOrName db' := by
  obtain ⟨kind, realm⟩ := s
  cases kind with
  | grammar => exact congrArg Answer.loadedGrammar (h.loadAs (Grammar.ofText ·.shown) .grammar idOrName)
  | lexicon => exact congrArg Answer.loadedLexicon (h.loadAs (Lexicon.ofText ·.shown) .lexicon idOrName)
  | bare => rfl

/-- Databases that agree still do after one change of any key. -/
theorem put (h : s.Agree db db') (key : String) (value : Stored) :
    s.Agree (db.put key value) (db'.put key value) := by
  intro other howns
  rw [Database.get?_put, Database.get?_put, h other howns]

/-- Databases that agree still do after any key was erased. -/
theorem erase (h : s.Agree db db') (key : String) : s.Agree (db.erase key) (db'.erase key) := by
  intro other howns
  rw [Database.get?_erase, Database.get?_erase, h other howns]

/-- Databases that agree still do after a list was put. -/
theorem putList (h : s.Agree db db') (key : String) (elements : List String) :
    s.Agree (db.putList key elements) (db'.putList key elements) := by
  rw [Database.putList, Database.putList]
  split
  · exact h.erase key
  · exact h.put key _

/-- Databases that agree still do after the store was cleared. -/
theorem clear (h : s.Agree db db') : s.Agree (s.clear db) (s.clear db') := by
  intro key howns
  rw [Store.clear, Store.clear, Database.get?_eraseMatching, Database.get?_eraseMatching, h key howns]

/-- A record is kept with the same success in databases that agree, and they still do. -/
theorem keep (h : s.Agree db db') (id : String) (record : Record) :
    (s.keep id record db).1 = (s.keep id record db').1 ∧
      s.Agree (s.keep id record db).2 (s.keep id record db').2 := by
  unfold Store.keep
  extract_lets withRecord withRecord'
  have hrecord : s.Agree withRecord withRecord' := h.put _ _
  rw [Database.push, Database.push, ← hrecord.list_index]
  cases withRecord.list s.indexKey with
  | error e => exact ⟨rfl, hrecord⟩
  | ok ids => exact ⟨rfl, hrecord.putList _ _⟩

/-- A source is saved with the same answer in databases that agree, and they still do. -/
theorem save (h : s.Agree db db') (name dsl : String) (size : Nat) (id : String) (time : Instant) :
    (s.save name dsl size id time db).1 = (s.save name dsl size id time db').1 ∧
      s.Agree (s.save name dsl size id time db).2 (s.save name dsl size id time db').2 := by
  obtain ⟨hkept, hagree⟩ := h.keep id (Source.record ⟨id, name, s.kind.name, dsl, time.text, size⟩)
  refine ⟨?_, hagree⟩
  rw [Store.save, Store.save]
  exact congrArg (Except.map _) hkept

/-- A source is forgotten with the same answer in databases that agree, and they still do. -/
theorem delete (h : s.Agree db db') (id : String) :
    (s.delete id db).1 = (s.delete id db').1 ∧ s.Agree (s.delete id db).2 (s.delete id db').2 := by
  rw [Store.delete, Store.delete, Database.has_eq_isSome, Database.has_eq_isSome, h _ (s.owns_key id)]
  split
  · have herased : s.Agree (db.erase (s.key id)) (db'.erase (s.key id)) := h.erase _
    dsimp only
    rw [Database.remove, Database.remove, ← herased.list_index]
    cases (db.erase (s.key id)).list s.indexKey with
    | error e => exact ⟨rfl, herased⟩
    | ok ids =>
      refine ⟨rfl, ?_⟩
      dsimp only [Except.map]
      split
      · exact herased.putList _ _
      · exact herased
  · exact ⟨rfl, h⟩

/-- A store answers by its own keys, and what it leaves under them depends on nothing else. -/
theorem perform (h : s.Agree db db') (operation : Operation) :
    (s.perform db operation).1 = (s.perform db' operation).1 ∧
      s.Agree (s.perform db operation).2 (s.perform db' operation).2 := by
  cases operation with
  | create name dsl supply =>
    rw [Store.perform, Store.perform, create, create]
    cases s.check dsl with
    | error refusal => exact ⟨rfl, h⟩
    | ok size =>
      obtain ⟨hsaved, hagree⟩ := h.save name dsl size supply.next.1.1 supply.next.1.2
      refine ⟨?_, hagree⟩
      dsimp only
      rw [hsaved]
  | get id => exact ⟨congrArg Answer.found (h.get id), h⟩
  | find idOrName => exact ⟨congrArg Answer.found (h.find idOrName), h⟩
  | list => exact ⟨congrArg Answer.listed h.list, h⟩
  | delete id =>
    obtain ⟨hknown, hagree⟩ := h.delete id
    exact ⟨congrArg Answer.deleted hknown, hagree⟩
  | clear => exact ⟨rfl, h.clear⟩
  | load idOrName => exact ⟨h.load idOrName, h⟩

end Agree

/-- A key that does not begin with the stem of a store is not touched by it. -/
theorem get?_perform_of_not_stem {s : Store} {key : String}
    (hrealm : s.realm.toList.all Glob.isLiteral = true) (hstem : ¬s.stem <+: key.toList) (db : Database)
    (operation : Operation) :
    (s.perform db operation).2.get? key = db.get? key := by
  have howns : ¬s.Owns key := fun h => hstem (stem_prefix_of_owns h)
  cases operation with
  | create name dsl supply =>
    rw [perform, create]
    cases s.check dsl with
    | error refusal => rfl
    | ok size => exact get?_save_of_not_owns howns name dsl size _ _ db
  | delete id => exact get?_delete_of_not_owns howns id db
  | clear => exact get?_clear_of_not_stem hrealm hstem db
  | get | find | list | load => rfl

variable {realm : String} {kind other : SourceKind}

/-- What another store does leaves the keys of a store alone. -/
theorem agree_perform (hrealm : realm.toList.all Glob.isLiteral = true) (hbare : other ≠ .bare)
    (hne : other ≠ kind) (db : Database) (operation : Operation) :
    (Store.mk kind realm).Agree ((Store.mk other realm).perform db operation).2 db :=
  fun _ howns => get?_perform_of_not_stem hrealm (not_stem_prefix_of_owns hbare hne howns) db operation

private theorem agree_after (hrealm : realm.toList.all Glob.isLiteral = true) (hbare : other ≠ .bare)
    (hne : other ≠ kind) (db : Database) (operations : List Operation) :
    (Store.mk kind realm).Agree ((Store.mk other realm).after db operations) db := by
  induction operations generalizing db with
  | nil => exact .refl _ db
  | cons operation rest ih => exact (ih _).trans (agree_perform hrealm hbare hne db operation)

/-- Under the keys of a store, calls to several stores leave what the calls to the one leave. -/
theorem agree_after_calls (hrealm : realm.toList.all Glob.isLiteral = true) {calls : List Call}
    (hcalls : ∀ c ∈ calls, c.kind ≠ .bare) {db db' : Database} (h : (Store.mk kind realm).Agree db db') :
    (Store.mk kind realm).Agree (Call.after realm db calls)
      ((Store.mk kind realm).after db' (Call.operationsOf kind calls)) := by
  induction calls generalizing db db' with
  | nil => exact h
  | cons c rest ih =>
    obtain ⟨hbare, hrest⟩ := List.forall_mem_cons.1 hcalls
    by_cases hkind : c.kind = kind
    · subst hkind
      rw [Call.operationsOf, List.filter_cons_of_pos (by simp)]
      exact ih hrest (h.perform c.operation).2
    · rw [Call.operationsOf, List.filter_cons_of_neg (by simpa using hkind)]
      exact ih hrest ((agree_perform hrealm hbare hkind db c.operation).trans h)

/-- The answers of a store are those that it gives where the calls to other stores are left out. -/
theorem answers_of_agree (hrealm : realm.toList.all Glob.isLiteral = true) {calls : List Call}
    (hcalls : ∀ c ∈ calls, c.kind ≠ .bare) {db db' : Database} (h : (Store.mk kind realm).Agree db db') :
    (Call.answers realm db calls).filter (·.1 == kind) =
      Call.answers realm db' (calls.filter (·.kind == kind)) := by
  induction calls generalizing db db' with
  | nil => rfl
  | cons c rest ih =>
    obtain ⟨hbare, hrest⟩ := List.forall_mem_cons.1 hcalls
    rw [Call.answers]
    by_cases hkind : c.kind = kind
    · subst hkind
      have hcall : (c.perform realm db).1 = (c.perform realm db').1 ∧
          (Store.mk c.kind realm).Agree (c.perform realm db).2 (c.perform realm db').2 := h.perform c.operation
      rw [List.filter_cons_of_pos (by simp), List.filter_cons_of_pos (by simp), Call.answers, hcall.1,
        ih hrest hcall.2]
    · rw [List.filter_cons_of_neg (by simpa using hkind), List.filter_cons_of_neg (by simpa using hkind)]
      exact ih hrest ((agree_perform hrealm hbare hkind db c.operation).trans h)

/-- Stores of different kinds do not interfere. Whatever is asked of one leaves every key of the other
as it was, and in any order of calls each answers as if the calls to the other were left out. -/
theorem stores_apart (hrealm : realm.toList.all Glob.isLiteral = true) (hkind : kind ≠ .bare)
    (hother : other ≠ .bare) (hne : other ≠ kind) (db : Database) :
    (∀ operations key, (Store.mk kind realm).Owns key →
      ((Store.mk other realm).after db operations).get? key = db.get? key) ∧
    ∀ calls : List Call, (∀ c ∈ calls, c.kind = kind ∨ c.kind = other) →
      (Call.answers realm db calls).filter (·.1 == kind) =
        Call.answers realm db (calls.filter (·.kind == kind)) := by
  refine ⟨fun operations => agree_after hrealm hother hne db operations, fun calls hcalls => ?_⟩
  refine answers_of_agree hrealm (fun c hc => ?_) (.refl _ db)
  rcases hcalls c hc with heq | heq
  · rwa [heq]
  · rwa [heq]

/-- A lexicon under the name of a grammar, between calls to the grammars. -/
def mingled : List Call :=
  [⟨.grammar, .create "g" "S -> N" {}⟩, ⟨.lexicon, .create "g" "x : N" {}⟩, ⟨.grammar, .load "g"⟩,
    ⟨.lexicon, .delete "s"⟩, ⟨.lexicon, .clear⟩, ⟨.grammar, .list⟩, ⟨.grammar, .delete "000000000001"⟩]

/-- A database in which others have written under keys that look like those of a store. -/
def foreign : Database :=
  ⟨[("p:lexicons", .text ""), ("p:grammar", .text "p:lexicon"), ("p:grammars", .list ["x", "x"]),
    ("p:lexicon::grammar:", .text "S -> N"), ("p:grammar:x", .list [":"])]⟩

/-- Calls to two stores in turn, over a database with keys of others. -/
theorem stores_apart_mingled :
    "p".toList.all Glob.isLiteral = true ∧ SourceKind.grammar ≠ .bare ∧ SourceKind.lexicon ≠ .bare ∧
      SourceKind.lexicon ≠ .grammar ∧ (∀ c ∈ mingled, c.kind = .grammar ∨ c.kind = .lexicon) ∧
      (Call.answers "p" foreign mingled).filter (·.1 == .grammar) =
        Call.answers "p" foreign (mingled.filter (·.kind == .grammar)) ∧
      ((Store.mk .lexicon "p").after foreign [.clear, .delete "x"]).get? "p:grammar:x" =
        some (.list [":"]) := by
  have hapart := @stores_apart "p" .grammar .lexicon (by decide) (by decide) (by decide) (by decide) foreign
  exact ⟨by decide, by decide, by decide, by decide, by decide, hapart.2 mingled (by decide),
    (hapart.1 [.clear, .delete "x"] "p:grammar:x" (.inr ⟨"x", by decide⟩)).trans (by decide)⟩

end Store

end Earley
