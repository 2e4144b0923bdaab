import Earley.Text.Lower

namespace Earley

/-- The value of a grammatical feature. -/
inductive FeatureValue where
  | text (value : String)
  | number (value : Int)
deriving DecidableEq, Repr

/-- Features by name, in order of first mention. -/
abbrev Features := List (String × FeatureValue)

/-- Sets a feature; a name that is there already keeps its place. -/
def Features.set (features : Features) (name : String) (value : FeatureValue) : Features :=
  match features with
  | [] => [(name, value)]
  | (n, v) :: rest =>
    if n == name then (n, value) :: rest else (n, v) :: Features.set rest name value

/-- Features from a list in which a name may come more than once. -/
def Features.ofList (pairs : List (String × FeatureValue)) : Features :=
  pairs.foldl (fun features (name, value) => Features.set features name value) []

/-- One reading of a word. -/
structure Reading where
  word : String
  pos : String
  baseForm : String
  features : Features := []
deriving DecidableEq, Repr

/-- Equality as a value: features take no part in it. -/
def Reading.same (r q : Reading) : Bool :=
  r.word == q.word && r.pos == q.pos && r.baseForm == q.baseForm

/-- The readings of one word, under its form in lower case. -/
structure Headword where
  key : String
  readings : List Reading
deriving DecidableEq, Repr

/-- Headwords in order of first mention. Words that differ only in case share their readings, of which
there may be any number. -/
structure Lexicon where
  headwords : List Headword := []
deriving DecidableEq, Repr

namespace Lexicon

def empty : Lexicon := {}

instance : Inhabited Lexicon := ⟨empty⟩

/-- Adds a reading at the end of its headword, or as a new headword. -/
def insert (reading : Reading) (key : String) : List Headword → List Headword
  | [] => [⟨key, [reading]⟩]
  | h :: rest =>
    if h.key == key then { h with readings := h.readings ++ [reading] } :: rest
    else h :: insert reading key rest

/-- Adds a reading of `word`. Without a base form, or with an empty one, the base form is the word
in lower case. -/
def add (lex : Lexicon) (word pos : String) (features : Features := [])
    (baseForm? : Option String := none) : Lexicon :=
  let key := Text.lower word
  let baseForm := match baseForm? with
    | none | some "" => key
    | some given => given
  ⟨insert ⟨word, pos, baseForm, features⟩ key lex.headwords⟩

/-- The readings of a word, in order of addition. -/
def lookup (lex : Lexicon) (word : String) : List Reading :=
  let key := Text.lower word
  match lex.headwords.find? (·.key == key) with
  | some h => h.readings
  | none => []

def has (lex : Lexicon) (word : String) : Bool :=
  let key := Text.lower word
  lex.headwords.any (·.key == key)

/-- The headwords' forms in lower case. -/
def keys (lex : Lexicon) : List String :=
  lex.headwords.map Headword.key

/-- All readings, grouped by headword. -/
def readings (lex : Lexicon) : List Reading :=
  lex.headwords.flatMap Headword.readings

/-- The count of readings. -/
def size (lex : Lexicon) : Nat :=
  lex.readings.length

end Lexicon

end Earley
