import Earley.Json.Encoding
import Earley.Json.Printer

namespace Earley

/-- What is kept of a source. Nothing keeps others from writing records too, so the fields of a record
that is read may hold any values. -/
structure Record where
  id : Json
  name : Json
  kind : Json
  dsl : Json
  createdAt : Json
  size : Json

/-- A named text with its count of rules or readings. -/
structure Source where
  id : String
  name : String
  kind : String
  dsl : String
  createdAt : String
  size : Int
deriving DecidableEq, Repr

/-- The record of texts as they were given, which may have halves of surrogate pairs in them. -/
def Record.ofTexts (id : String) (name : AnyText) (kind : String) (dsl : AnyText) (createdAt : String)
    (size : Int) : Record :=
  ⟨.string id, .ofText name, .string kind, .ofText dsl, .string createdAt, .int size⟩

/-- The record of a source. -/
def Source.record (s : Source) : Record :=
  .ofTexts s.id s.name s.kind s.dsl s.createdAt s.size

namespace Record

/-- The names of a record's fields, in order. -/
def fieldNames : List String := ["id", "name", "kind", "dsl", "created_at", "size"]

def toJson (r : Record) : Json :=
  .object [("id", r.id), ("name", r.name), ("kind", r.kind), ("dsl", r.dsl),
    ("created_at", r.createdAt), ("size", r.size)]

/-- The text of a record: one line of ASCII. -/
def text (r : Record) : String := r.toJson.toLine

/-- A count with too many digits to be written. -/
structure LongSize where
  size : Int
deriving DecidableEq, Repr

def LongSize.message (_ : LongSize) : String :=
  "Exceeds the limit (" ++ Decimal.integerText Decimal.maxIntDigits ++
    " digits) for integer string conversion; use sys.set_int_max_str_digits() to increase the limit"

/-- Why a text is no record. -/
inductive Fault where
  | notText (bytes : Text.BadBytes)
  | notJson (text : String) (fault : Json.Fault)
  | notFields (found : Json)
  | unknownField (name : AnyText)
  | missingFields (names : List String)

/-- The record in a JSON value. Fields that a record does not have are found before fields that are
missing. -/
def ofJson? (j : Json) : Except Fault Record :=
  let isKnown := fun (name : AnyText) => name.whole?.any fieldNames.contains
  match j with
  | .halvedObject members =>
    .error (.unknownField (((members.map Prod.fst).find? (!isKnown ·)).getD (.whole "")))
  | .object members =>
    match members.find? fun (name, _) => !fieldNames.contains name with
    | some (name, _) => .error (.unknownField name)
    | none =>
      let field := Json.member? members
      match field "id", field "name", field "kind", field "dsl", field "created_at",
          field "size" with
      | some id, some name, some kind, some dsl, some createdAt, some size =>
        .ok ⟨id, name, kind, dsl, createdAt, size⟩
      | _, _, _, _, _, _ =>
        .error (.missingFields (fieldNames.filter fun name => (field name).isNone))
  | other => .error (.notFields other)

/-- The record in a text. -/
def ofText? (text : String) : Except Fault Record :=
  match Json.decodeText text.toList with
  | .error bytes => .error (.notText bytes)
  | .ok cs => match Json.read cs with
    | .ok j => ofJson? j
    | .error fault => .error (.notJson (String.ofList cs) fault)

/-- Whether the name of a record is a given text. -/
def isNamed (r : Record) (name : String) : Bool :=
  r.name.string? == some name

end Record

/-- The text of a source's record, unless its count has too many digits. What is counted in a source
that is kept never has. -/
def Source.encode (s : Source) : Except Record.LongSize String :=
  if Decimal.maxIntDigits < (Decimal.numeral s.size.natAbs).length then .error ⟨s.size⟩
  else .ok s.record.text

end Earley
