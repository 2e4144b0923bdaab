import Earley.Clock
import Earley.Database
import Earley.Grammar.Text
import Earley.Json.Order
import Earley.Lexicon.Text
import Earley.Sorting
import Earley.Source

namespace Earley

/-- What a store keeps. A bare store has no texts of its own: it refuses all. -/
inductive SourceKind where
  | grammar
  | lexicon
  | bare
deriving DecidableEq, Repr

namespace SourceKind

def name : SourceKind → String
  | .grammar => "grammar"
  | .lexicon => "lexicon"
  | .bare => ""

/-- The count of rules or readings in a text, or what is wrong with it. -/
def measure : SourceKind → String → Except String Nat
  | .grammar, dsl => match Grammar.ofText dsl with
    | .ok g => .ok g.rules.length
    | .error f => .error (f.describe Grammar.LineError.message)
  | .lexicon, dsl => match Lexicon.ofText dsl with
    | .ok lex => .ok lex.size
    | .error f => .error (f.describe Lexicon.LineError.message)
  | .bare, _ => .error ""

end SourceKind

/-- A store: what it keeps, and the first part of its keys. It has one record per source, and an index
with the identifiers in order of creation. Texts are read once on their way in, to refuse faulty ones
and to count their rules or readings, and again when they are loaded. -/
structure Store where
  kind : SourceKind
  realm : String := "buffalo"
deriving DecidableEq, Repr

namespace Store

/-- A text that a store does not take. -/
structure Refusal where
  kind : SourceKind
  reason : String
deriving DecidableEq, Repr

def Refusal.message (r : Refusal) : String :=
  "Failed to parse " ++ r.kind.name ++ ": " ++ r.reason

/-- What can go wrong with a store: a text that it does not take, a record that holds no source, a
key with a value of the wrong form, or times that have no order between them. -/
inductive Fault where
  | badText (refusal : Refusal)
  | badRecord (fault : Record.Fault)
  | wrongForm (key : String)
  | unordered (clash : Json.Clash)

/-- The key of a record. -/
def key (s : Store) (id : String) : String :=
  s.realm ++ ":" ++ s.kind.name ++ ":" ++ id

/-- The key of the index. -/
def indexKey (s : Store) : String :=
  s.realm ++ ":" ++ s.kind.name ++ "s"

/-- The pattern of all keys of the store. -/
def pattern (s : Store) : String :=
  s.realm ++ ":" ++ s.kind.name ++ "*"

def ofForm {α : Type} : Except Database.WrongForm α → Except Fault α
  | .ok a => .ok a
  | .error e => .error (.wrongForm e.key)

/-- Reads a text on its way in. -/
def check (s : Store) (dsl : String) : Except Refusal Nat :=
  (s.kind.measure dsl).mapError (⟨s.kind, ·⟩)

/-- Keeps a record under a new identifier. The second value is the database as it was left, also if
the index turned out to be no list. -/
def keep (s : Store) (id : String) (record : Record) (db : Database) :
    Except Fault Unit × Database :=
  let withRecord := db.put (s.key id) (.text record.text)
  match withRecord.push s.indexKey [id] with
  | .ok db => (.ok (), db)
  | .error e => (.error (.wrongForm e.key), withRecord)

/-- Keeps a text that was read. -/
def save (s : Store) (name dsl : String) (size : Nat) (id : String) (time : Instant)
    (db : Database) : Except Fault Source × Database :=
  let source : Source := ⟨id, name, s.kind.name, dsl, time.text, size⟩
  let (kept, db) := s.keep id source.record db
  (kept.map fun () => source, db)

/-- Reads a text and keeps it. A refused text takes nothing from the supply. -/
def create (s : Store) (name dsl : String) (db : Database) (supply : Supply) :
    Except Fault String × Database × Supply :=
  match s.check dsl with
  | .error refusal => (.error (.badText refusal), db, supply)
  | .ok size =>
    let ((id, time), supply) := supply.next
    let (saved, db) := s.save name dsl size id time db
    (saved.map Source.id, db, supply)

/-- The record with an identifier. -/
def get (s : Store) (id : String) (db : Database) : Except Fault (Option Record) :=
  match db.text? (s.key id) with
  | .error e => .error (.wrongForm e.key)
  | .ok none => .ok none
  | .ok (some "") => .ok none
  | .ok (some text) => match Record.ofText? text with
    | .ok record => .ok (some record)
    | .error fault => .error (.badRecord fault)

/-- The records of identifiers, without those that have none. -/
def getAll (s : Store) (db : Database) : List String → Except Fault (List Record)
  | [] => .ok []
  | id :: rest => do
    let first ← s.get id db
    let others ← getAll s db rest
    .ok (first.toList ++ others)

/-- Whether a record does not come after another, where the latest comes first. -/
def notAfter (a b : Record) : Bool :=
  !((a.createdAt.string?.getD "") < (b.createdAt.string?.getD ""))

/-- Records with the latest first; those of one time stay in order. Times are compared as texts.
Only where others have written times of other forms, these are compared by the order of their
values. -/
def latestFirst (records : List Record) : Except Fault (List Record) :=
  if records.all fun r => r.createdAt.string?.isSome then .ok (records.mergeSort notAfter)
  else
    let less := fun (a b : Record) => Json.less? a.createdAt b.createdAt
    (Sorting.descending less records).mapError .unordered

/-- All records, the latest first. -/
def list (s : Store) (db : Database) : Except Fault (List Record) := do
  let ids ← ofForm (db.list s.indexKey)
  let records ← s.getAll db ids
  latestFirst records

/-- The record with an identifier, or else the latest with that name. -/
def find (s : Store) (idOrName : String) (db : Database) : Except Fault (Option Record) := do
  match ← s.get idOrName db with
  | some record => .ok (some record)
  | none =>
    let records ← s.list db
    .ok (records.find? (·.isNamed idOrName))

/-- Forgets the source with an identifier; tells whether there was one. -/
def delete (s : Store) (id : String) (db : Database) : Except Fault Bool × Database :=
  if db.has (s.key id) then
    let erased := db.erase (s.key id)
    match erased.remove s.indexKey id with
    | .ok db => (.ok true, db)
    | .error e => (.error (.wrongForm e.key), erased)
  else (.ok false, db)

/-- Forgets everything under the store's keys. -/
def clear (s : Store) (db : Database) : Database :=
  db.eraseMatching s.pattern

/-- Why a source cannot be loaded. -/
inductive LoadFault where
  | store (fault : Fault)
  | notText (found : Json)
  | grammar (fault : Text.LineFault Grammar.LineError)
  | lexicon (fault : Text.LineFault Lexicon.LineError)

/-- The text of a source, found by identifier or name. -/
def findText (s : Store) (idOrName : String) (db : Database) : Except LoadFault (Option AnyText) :=
  match s.find idOrName db with
  | .error fault => .error (.store fault)
  | .ok none => .ok none
  | .ok (some record) => match record.dsl.text? with
    | some dsl => .ok (some dsl)
    | none => .error (.notText record.dsl)

/-- What a source holds, found by identifier or name and read. -/
def loadAs {α β : Type} (s : Store) (read : AnyText → Except β α) (fault : β → LoadFault)
    (idOrName : String) (db : Database) : Except LoadFault (Option α) :=
  match s.findText idOrName db with
  | .error fault => .error fault
  | .ok none => .ok none
  | .ok (some dsl) => ((read dsl).map some).mapError fault

/-- The grammar of a source, found by identifier or name. -/
def loadGrammar (realm idOrName : String) (db : Database) : Except LoadFault (Option Grammar) :=
  loadAs ⟨.grammar, realm⟩ (Grammar.ofText ·.shown) .grammar idOrName db

/-- The lexicon of a source, found by identifier or name. In the place of halves of surrogate pairs
it has characters that are not in its text otherwise. -/
def loadLexicon (realm idOrName : String) (db : Database) : Except LoadFault (Option Lexicon) :=
  loadAs ⟨.lexicon, realm⟩ (Lexicon.ofText ·.shown) .lexicon idOrName db

end Store

end Earley
