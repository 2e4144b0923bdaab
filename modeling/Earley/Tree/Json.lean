import Earley.Json
import Earley.Parse
import Earley.Tree

namespace Earley

def FeatureValue.toJson : FeatureValue → Json
  | .text value => .string value
  | .number value => .int value

/-- A reading; no features are null. -/
def Reading.toJson (r : Reading) : Json :=
  .object [("word", .string r.word), ("pos", .string r.pos), ("lemma", .string r.baseForm),
    ("features", if r.features.isEmpty then .null
      else .object (r.features.map fun (name, value) => (name, value.toJson)))]

namespace Tree

def spanJson (span : Int × Int) : Json := .array [.int span.1, .int span.2]

/-- The members of a node that only words have. -/
def wordMembers (word : Option String) (reading : Option Reading) : List (String × Json) :=
  match word with
  | none => []
  | some w => [("word", .string w), ("entry", (reading.map Reading.toJson).getD .null)]

mutual

/-- A tree as a JSON value; only words have the members of words. -/
def toJson : Tree → Json
  | .node s cs word span reading =>
    .object ([("symbol", .string s), ("span", spanJson span), ("children", .array (toJsonAll cs))] ++
      wordMembers word reading)

def toJsonAll : List Tree → List Json
  | [] => []
  | t :: rest => toJson t :: toJsonAll rest

end

end Tree

def Forest.Parse.toJson (p : Forest.Parse) : Json :=
  .object [("root", p.root.toJson), ("sentence", .strings p.sentence),
    ("weight", (p.weight.map Json.float).getD .null), ("bracketed", .string p.root.bracketed)]

def Outcome.toJson (o : Outcome) : Json :=
  .object [("input", .strings o.input), ("trees", .array (o.trees.map Forest.Parse.toJson)),
    ("errors", (o.errors.map Json.strings).getD .null), ("count", .int o.trees.length)]

end Earley
