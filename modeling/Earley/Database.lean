import Earley.Database.Glob

namespace Earley

/-- What a key holds. -/
inductive Stored where
  | text (value : String)
  | list (elements : List String)
deriving DecidableEq, Repr

/-- Keys with what they hold, a text or a list of texts; no key comes twice. A list without elements is
not kept. -/
structure Database where
  entries : List (String × Stored) := []
deriving DecidableEq, Repr

namespace Database

def empty : Database := {}

/-- What a key holds. -/
def get? (db : Database) (key : String) : Option Stored :=
  (db.entries.find? (·.1 == key)).map Prod.snd

def has (db : Database) (key : String) : Bool :=
  db.entries.any (·.1 == key)

/-- Forgets a key. -/
def erase (db : Database) (key : String) : Database :=
  ⟨db.entries.filter (·.1 != key)⟩

/-- Gives a key its value, in the key's old place or at the end. -/
def put (db : Database) (key : String) (value : Stored) : Database :=
  if db.has key then ⟨db.entries.map fun entry => if entry.1 == key then (key, value) else entry⟩
  else ⟨db.entries ++ [(key, value)]⟩

/-- Forgets all keys that follow a pattern. -/
def eraseMatching (db : Database) (pattern : String) : Database :=
  ⟨db.entries.filter fun entry => !Glob.accepts pattern.toList entry.1.toList⟩

/-- A key holds a value of the other form. -/
structure WrongForm where
  key : String
deriving DecidableEq, Repr

/-- The text of a key. -/
def text? (db : Database) (key : String) : Except WrongForm (Option String) :=
  match db.get? key with
  | none => .ok none
  | some (.text value) => .ok (some value)
  | some (.list _) => .error ⟨key⟩

/-- The list of a key, empty if there is none. -/
def list (db : Database) (key : String) : Except WrongForm (List String) :=
  match db.get? key with
  | none => .ok []
  | some (.list elements) => .ok elements
  | some (.text _) => .error ⟨key⟩

/-- Gives a key a list; without elements the key is forgotten. -/
def putList (db : Database) (key : String) (elements : List String) : Database :=
  if elements.isEmpty then db.erase key else db.put key (.list elements)

/-- Adds elements at the end of a key's list. -/
def push (db : Database) (key : String) (more : List String) : Except WrongForm Database :=
  (db.list key).map fun elements => db.putList key (elements ++ more)

/-- Takes every occurrence of an element out of a key's list. -/
def remove (db : Database) (key element : String) : Except WrongForm Database :=
  (db.list key).map fun elements =>
    if elements.contains element then db.putList key (elements.filter (· != element)) else db

end Database

end Earley
