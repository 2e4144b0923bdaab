namespace Earley

/-- A grammar symbol: one of a fixed set of categories, which rules expand, or else a tag, the part of
speech of a word. -/
abbrev Symbol := String

namespace Symbol

/-- The categories that rules may expand. -/
def categories : List Symbol := ["S", "NP", "VP", "PP", "ADJP", "ADVP", "RC"]

/-- The category of a whole sentence. -/
def start : Symbol := "S"

def isCategory (s : Symbol) : Bool := categories.contains s

def isTag (s : Symbol) : Bool := !isCategory s

end Symbol

end Earley
