import Earley.Binary64
import Earley.Text.Halved

namespace Earley

open Text

/-- JSON values. Members of an object keep their order, integers are exact, and other numbers are
binary64 numbers, among them the infinities. Texts and names can have halves of surrogate pairs in
them: such a text has a form of its own, and so has an object with such a name. -/
inductive Json where
  | null
  | bool (value : Bool)
  | int (value : Int)
  | float (value : Binary64)
  | string (value : String)
  | halved (value : Halved)
  | array (elements : List Json)
  | object (members : List (String × Json))
  | halvedObject (members : List (AnyText × Json))
deriving Inhabited

namespace Json

/-- The value of a member; of members with one name the last counts. -/
def member? (members : List (String × Json)) (name : String) : Option Json :=
  (members.reverse.find? (·.1 == name)).map Prod.snd

/-- Gives a name its value, in the name's old place or at the end. -/
def putMember (members : List (AnyText × Json)) (member : AnyText × Json) : List (AnyText × Json) :=
  if members.any (·.1 == member.1) then
    members.map fun old => if old.1 == member.1 then member else old
  else members ++ [member]

/-- Members whose names are whole. -/
def wholeMembers (members : List (AnyText × Json)) : List (String × Json) :=
  members.filterMap fun (name, x) => name.whole?.map (·, x)

/-- The object with given members, no two of them with one name. -/
def ofDistinct (members : List (AnyText × Json)) : Json :=
  if members.all (·.1.isWhole) then .object (wholeMembers members) else .halvedObject members

/-- The object with given members: a name that comes again keeps its first place and gets its last
value. -/
def ofMembers (members : List (AnyText × Json)) : Json :=
  ofDistinct (members.foldl putMember [])

/-- The members of an object, without those whose names have halves of pairs in them. -/
def members? : Json → Option (List (String × Json))
  | .object members => some members
  | .halvedObject members => some (wholeMembers members)
  | _ => none

/-- The value of a member, if this is an object that has it. -/
def get? (j : Json) (name : String) : Option Json :=
  j.members?.bind (member? · name)

def string? : Json → Option String
  | .string s => some s
  | _ => none

def ofText : AnyText → Json
  | .whole s => .string s
  | .halved h => .halved h

/-- The text of code points. -/
def ofCodes (codes : List Nat) : Json := ofText (.ofCodes codes)

/-- A text of either form. -/
def text? : Json → Option AnyText
  | .string s => some (.whole s)
  | .halved h => some (.halved h)
  | _ => none

/-- A text that is made a value is the text of that value, in either form. -/
@[simp]
theorem text?_ofText (t : AnyText) : (ofText t).text? = some t := by cases t <;> rfl

def int? : Json → Option Int
  | .int n => some n
  | _ => none

def array? : Json → Option (List Json)
  | .array xs => some xs
  | _ => none

/-- An array of texts. -/
def strings (xs : List String) : Json := .array (xs.map .string)

/-- A text, or null. -/
def ofString? : Option String → Json
  | some s => .string s
  | none => .null

mutual

/-- Whether every number in the value is finite and every text has characters only, so that strict
JSON can carry it. -/
def isStrict : Json → Bool
  | .float x => x.isFinite
  | .halved _ | .halvedObject _ => false
  | .array xs => allStrict xs
  | .object members => membersStrict members
  | _ => true

def allStrict : List Json → Bool
  | [] => true
  | x :: rest => isStrict x && allStrict rest

def membersStrict : List (String × Json) → Bool
  | [] => true
  | (_, x) :: rest => isStrict x && membersStrict rest

/-- The value without the members whose names are not to be kept, at any depth. -/
def keepMembers (keep : String → Bool) : Json → Json
  | .array xs => .array (keepInAll keep xs)
  | .object members => .object (keepInMembers keep members)
  | .halvedObject members => ofDistinct (keepInHalved keep members)
  | scalar => scalar

def keepInAll (keep : String → Bool) : List Json → List Json
  | [] => []
  | x :: rest => keepMembers keep x :: keepInAll keep rest

def keepInMembers (keep : String → Bool) : List (String × Json) → List (String × Json)
  | [] => []
  | (name, x) :: rest =>
    if keep name then (name, keepMembers keep x) :: keepInMembers keep rest
    else keepInMembers keep rest

def keepInHalved (keep : String → Bool) : List (AnyText × Json) → List (AnyText × Json)
  | [] => []
  | (name, x) :: rest =>
    if keep name.shown then (name, keepMembers keep x) :: keepInHalved keep rest
    else keepInHalved keep rest

/-- The value with halves of pairs in the place of the characters that stand in for them. Names are
made of words, which have no halves. -/
def unmark (marks : List (Nat × Char)) : Json → Json
  | .string s => ofText (.unmark marks s)
  | .array xs => .array (unmarkAll marks xs)
  | .object members => .object (unmarkMembers marks members)
  | other => other

def unmarkAll (marks : List (Nat × Char)) : List Json → List Json
  | [] => []
  | x :: rest => unmark marks x :: unmarkAll marks rest

def unmarkMembers (marks : List (Nat × Char)) : List (String × Json) → List (String × Json)
  | [] => []
  | (name, x) :: rest => (name, unmark marks x) :: unmarkMembers marks rest

end

/-- A value that was made of what is shown of a text, with the halves of the text back in it. -/
def restore (t : AnyText) (j : Json) : Json :=
  if t.marks.isEmpty then j else j.unmark t.marks

end Json

end Earley
