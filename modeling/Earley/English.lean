import Earley.Grammar
import Earley.Lexicon

namespace Earley.English

/-- A weight given in hundredths. -/
def hundredths (n : Nat) : Weight :=
  Decimal.Written.toBinary64 ⟨false, n, -2⟩

/-- The rules with their weights in hundredths. -/
def ruleTable : List (Symbol × List Symbol × Nat) :=
  [("S", ["NP", "VP"], 100),
   ("S", ["VP"], 80),
   ("S", ["NP"], 50),
   ("S", ["S", "CONJ", "S"], 70),
   ("NP", ["N"], 60),
   ("NP", ["DET", "N"], 90),
   ("NP", ["DET", "ADJ", "N"], 80),
   ("NP", ["ADJ", "N"], 50),
   ("NP", ["NP", "PP"], 60),
   ("NP", ["NP", "RC"], 70),
   ("NP", ["PN"], 80),
   ("NP", ["PN", "N"], 85),
   ("NP", ["NP", "CONJ", "NP"], 60),
   ("VP", ["V"], 70),
   ("VP", ["V", "NP"], 90),
   ("VP", ["V", "NP", "PP"], 60),
   ("VP", ["V", "PP"], 50),
   ("VP", ["V", "ADV"], 60),
   ("VP", ["ADV", "V"], 50),
   ("VP", ["V", "NP", "ADV"], 50),
   ("VP", ["ADV", "V", "NP"], 50),
   ("VP", ["VP", "CONJ", "VP"], 60),
   ("ADVP", ["ADV"], 80),
   ("ADVP", ["ADV", "ADV"], 40),
   ("PP", ["PREP", "NP"], 100),
   ("RC", ["REL", "S"], 80),
   ("RC", ["REL", "VP"], 70),
   ("RC", ["NP", "VP"], 60),
   ("RC", ["S"], 40)]

private theorem ruleTable_proper : ∀ row ∈ ruleTable, row.1.isCategory = true ∧ row.2.1 ≠ [] := by
  decide

/-- A small English grammar. It is permissive: a relative clause may lack its pronoun, which is what
lets a row of one and the same word be a sentence. -/
def grammar : Grammar where
  rules := ruleTable.map fun (lhs, rhs, weight) => ⟨lhs, rhs, hundredths weight⟩
  proper := by
    intro r hr
    obtain ⟨row, hrow, rfl⟩ := List.mem_map.1 hr
    exact ruleTable_proper row hrow

def singular : Features := [("number", .text "singular")]

def plural : Features := [("number", .text "plural")]

def past : Features := [("tense", .text "past")]

def present : Features := [("tense", .text "present")]

/-- The form that goes with a third person singular. -/
def thirdPerson : Features :=
  [("tense", .text "present"), ("number", .text "singular"), ("person", .number 3)]

/-- Words, their parts of speech, features and base forms. -/
abbrev WordTable := List (String × String × Features × Option String)

def commonWords : WordTable :=
  [("the", "DET", [], none),
   ("a", "DET", [], none),
   ("an", "DET", [], none),
   ("dog", "N", singular, none),
   ("dogs", "N", plural, some "dog"),
   ("cat", "N", singular, none),
   ("cats", "N", plural, some "cat"),
   ("man", "N", singular, none),
   ("men", "N", plural, some "man"),
   ("woman", "N", singular, none),
   ("women", "N", plural, some "woman"),
   ("bird", "N", singular, none),
   ("birds", "N", plural, some "bird"),
   ("fish", "N", singular, none),
   ("fish", "N", plural, none),
   ("chased", "V", past, some "chase"),
   ("chase", "V", present, none),
   ("chases", "V", thirdPerson, some "chase"),
   ("bit", "V", past, some "bite"),
   ("bite", "V", present, none),
   ("bites", "V", thirdPerson, some "bite"),
   ("ran", "V", past, some "run"),
   ("run", "V", present, none),
   ("runs", "V", thirdPerson, some "run"),
   ("saw", "V", past, some "see"),
   ("see", "V", present, none),
   ("sees", "V", thirdPerson, some "see"),
   ("ate", "V", past, some "eat"),
   ("eat", "V", present, none),
   ("eats", "V", thirdPerson, some "eat"),
   ("big", "ADJ", [], none),
   ("small", "ADJ", [], none),
   ("fast", "ADJ", [], none),
   ("slow", "ADJ", [], none),
   ("quickly", "ADV", [], none),
   ("slowly", "ADV", [], none),
   ("away", "ADV", [], none),
   ("in", "PREP", [], none),
   ("on", "PREP", [], none),
   ("with", "PREP", [], none),
   ("to", "PREP", [], none),
   ("from", "PREP", [], none),
   ("who", "REL", [], none),
   ("whom", "REL", [], none),
   ("that", "REL", [], none),
   ("which", "REL", [], none),
   ("and", "CONJ", [], none),
   ("or", "CONJ", [], none)]

/-- One word in many parts: the city, the animal, to intimidate, and a manner. -/
def buffaloWords : WordTable :=
  [("Buffalo", "PN", [], some "buffalo"),
   ("buffalo", "N", plural, none),
   ("buffalo", "N", singular, none),
   ("buffalo", "V", [("tense", .text "present"), ("number", .text "plural")], none),
   ("buffalo", "V",
     [("tense", .text "present"), ("number", .text "singular"), ("person", .number 1)], none),
   ("buffalo", "V",
     [("tense", .text "present"), ("number", .text "singular"), ("person", .number 2)], none),
   ("buffalo", "ADV", [], none)]

/-- The lexicon of a word table. -/
def lexiconOf (table : WordTable) : Lexicon :=
  table.foldl (fun lex (word, pos, features, baseForm?) => lex.add word pos features baseForm?) .empty

def commonLexicon : Lexicon := lexiconOf commonWords

def buffaloLexicon : Lexicon := lexiconOf buffaloWords

/-- The grammars that are always there, by name. -/
def grammars : List (String × Grammar) := [("english", grammar)]

/-- The lexicons that are always there, by name. -/
def lexicons : List (String × Lexicon) :=
  [("english", commonLexicon), ("buffalo", buffaloLexicon)]

/-- A grammar by its name. -/
def grammar? (name : String) : Option Grammar :=
  (grammars.find? (·.1 == name)).map Prod.snd

/-- A lexicon by its name. -/
def lexicon? (name : String) : Option Lexicon :=
  (lexicons.find? (·.1 == name)).map Prod.snd

end Earley.English
