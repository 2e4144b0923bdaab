import Earley.Proofs.Grammar.Index
import Earley.Proofs.Lexicon.Plain

namespace Earley

namespace Grammar

/-- What an addition to a grammar is made with. -/
structure Addition where
  lhs : Symbol
  rhs : List Symbol
  weight : Weight.Given := .number Binary64.one
deriving DecidableEq, Repr

/-- The rule of an addition that is not refused. -/
def Addition.rule? (a : Addition) : Option Rule :=
  if a.lhs.isCategory = true ∧ a.rhs ≠ [] then a.weight.read.toOption.map (Rule.mk a.lhs a.rhs)
  else none

/-- A grammar after an addition, be it refused or not. -/
def attempt (g : Grammar) (a : Addition) : Grammar :=
  (g.add a.lhs a.rhs a.weight).toOption.getD g

/-- The grammar that a row of additions leaves. -/
def after (additions : List Addition) : Grammar :=
  additions.foldl attempt empty

private theorem after_append_singleton (additions : List Addition) (a : Addition) :
    after (additions ++ [a]) = (after additions).attempt a := by
  rw [after, List.foldl_append]
  rfl

/-- An addition is refused by all grammars alike, and otherwise puts its rule behind the others. -/
theorem add_spec (g : Grammar) (a : Addition) :
    (∃ fault, a.rule? = none ∧ g.add a.lhs a.rhs a.weight = .error fault) ∨
      ∃ rule after, a.rule? = some rule ∧ rule.IsProper ∧ rule.lhs = a.lhs ∧
        g.add a.lhs a.rhs a.weight = .ok after ∧ after.rules = g.rules ++ [rule] := by
  rw [Addition.rule?, add]
  by_cases hlhs : a.lhs.isCategory = true
  · by_cases hrhs : a.rhs = []
    · exact .inl ⟨.emptyRhs a.lhs, by simp [hrhs], by simp [hlhs, hrhs]⟩
    · rw [if_pos ⟨hlhs, hrhs⟩, dif_pos hlhs, dif_neg hrhs]
      cases hweight : a.weight.read with
      | error fault => exact .inl ⟨.badWeight fault, rfl, rfl⟩
      | ok w => exact .inr ⟨⟨a.lhs, a.rhs, w⟩, _, rfl, ⟨hlhs, hrhs⟩, rfl, rfl, rfl⟩
  · exact .inl ⟨.notCategory a.lhs, if_neg fun h => hlhs h.1, dif_neg hlhs⟩

private theorem isOk_add (g : Grammar) (a : Addition) :
    (g.add a.lhs a.rhs a.weight).isOk = a.rule?.isSome := by
  obtain ⟨fault, hrule, hadd⟩ | ⟨rule, g', hrule, -, -, hadd, -⟩ := add_spec g a
  · rw [hrule, hadd]
    rfl
  · rw [hrule, hadd]
    rfl

private theorem attempt_of_error {g : Grammar} {a : Addition} {fault : Rule.Fault}
    (h : g.add a.lhs a.rhs a.weight = .error fault) : g.attempt a = g := by
  rw [attempt, h]
  rfl

private theorem rules_attempt (g : Grammar) (a : Addition) :
    (g.attempt a).rules = g.rules ++ a.rule?.toList := by
  obtain ⟨fault, hrule, hadd⟩ | ⟨rule, g', hrule, -, -, hadd, hrules⟩ := add_spec g a
  · rw [attempt_of_error hadd, hrule]
    exact (List.append_nil _).symm
  · rw [attempt, hadd, hrule]
    exact hrules

/-- A grammar holds the rules that were not refused, in their order. -/
theorem rules_after (additions : List Addition) :
    (after additions).rules = additions.filterMap Addition.rule? := by
  induction additions using List.reverseRecOn with
  | nil => rfl
  | append_singleton additions a ih =>
    rw [after_append_singleton, rules_attempt, ih, List.filterMap_append]
    cases ha : a.rule? with
    | none => simp [ha]
    | some rule => simp [ha]

end Grammar

namespace Lexicon

open Earley.Text

/-- What an addition to a lexicon is made with. -/
structure Addition where
  word : String
  pos : String
  features : Features := []
  baseForm? : Option String := none
deriving DecidableEq, Repr

/-- The reading that an addition makes. -/
def Addition.reading (a : Addition) : Reading where
  word := a.word
  pos := a.pos
  baseForm := if a.baseForm?.getD "" = "" then lower a.word else a.baseForm?.getD ""
  features := a.features

/-- The lexicon that a row of additions leaves. -/
def after (additions : List Addition) : Lexicon :=
  additions.foldl (fun lex a => lex.add a.word a.pos a.features a.baseForm?) empty

private theorem after_append_singleton (additions : List Addition) (a : Addition) :
    after (additions ++ [a]) = (after additions).add a.word a.pos a.features a.baseForm? := by
  rw [after, List.foldl_append]
  rfl

/-- The key of a reading's headword. -/
def keyOf (r : Reading) : String :=
  lower r.word

/-- The readings by the keys of their headwords. -/
def groups (lex : Lexicon) : Groups Reading :=
  lex.headwords.map fun h => (h.key, h.readings)

private theorem headwords_add (lex : Lexicon) (a : Addition) :
    (lex.add a.word a.pos a.features a.baseForm?).headwords =
      insert a.reading (keyOf a.reading) lex.headwords := by
  obtain ⟨word, pos, features, baseForm?⟩ := a
  by_cases hempty : baseForm? = some ""
  · subst hempty
    rfl
  · rw [add_eq lex word pos features hempty, Addition.reading]
    cases baseForm? with
    | none => rfl
    | some form =>
      rw [Option.getD_some, Option.getD_some, if_neg fun heq => hempty (congrArg some heq)]
      rfl

private theorem groups_insert (reading : Reading) (key : String) (hs : List Headword) :
    (insert reading key hs).map (fun h => (h.key, h.readings)) =
      Groups.add (hs.map fun h => (h.key, h.readings)) key reading := by
  induction hs with
  | nil => rfl
  | cons h rest ih =>
    rw [insert, List.map_cons, Groups.add]
    split
    · rfl
    · rw [List.map_cons, ih]

private theorem groups_add (lex : Lexicon) (a : Addition) :
    (lex.add a.word a.pos a.features a.baseForm?).groups =
      lex.groups.add (keyOf a.reading) a.reading := by
  rw [groups, headwords_add, groups_insert]
  rfl

/-- A lexicon groups the readings that were added by their words in lower case. -/
theorem groups_after (additions : List Addition) :
    (after additions).groups = .ofList keyOf (additions.map Addition.reading) := by
  rw [Groups.ofList, List.foldl_map, after]
  exact (List.foldl_hom groups fun lex a => (groups_add lex a).symm).symm

private theorem lookup_eq (lex : Lexicon) (word : String) :
    lex.lookup word = lex.groups.get (lower word) := by
  rw [lookup, groups]
  induction lex.headwords with
  | nil => rfl
  | cons h rest ih =>
    rw [List.map_cons, Groups.get, List.find?_cons]
    cases hkey : h.key == lower word with
    | true => rfl
    | false => simpa [hkey] using ih

/-- A lexicon has a word if there is a group for it, in lower case. -/
theorem has_iff (lex : Lexicon) (word : String) : lex.has word = true ↔ lower word ∈ lex.groups.keys := by
  simp [has, Groups.keys, groups]

private theorem readings_eq (lex : Lexicon) : lex.readings = lex.groups.flatMap Prod.snd := by
  rw [readings, groups, List.flatMap_map]

/-- No reading is lost, and none comes from nowhere. -/
theorem readings_after (additions : List Addition) :
    (after additions).readings.Perm (additions.map Addition.reading) := by
  induction additions using List.reverseRecOn with
  | nil => rfl
  | append_singleton additions a ih =>
    rw [after_append_singleton, readings, headwords_add, List.map_append]
    exact (readings_insert _ _ _).trans (ih.append_right _)

private theorem lookup_after (additions : List Addition) (word : String) :
    (after additions).lookup word =
      (additions.map Addition.reading).filter (keyOf · == lower word) := by
  rw [lookup_eq, groups_after, Groups.get_ofList]

private theorem has_after_iff (additions : List Addition) (word : String) :
    (after additions).has word = true ↔ (after additions).lookup word ≠ [] := by
  rw [has_iff, groups_after, Groups.keys_ofList, List.mem_eraseDups, List.mem_map, lookup_after,
    ne_eq, List.filter_eq_nil_iff]
  simp

end Lexicon

/-- The tables agree with the histories of what was added. A grammar has the proper rules that were
not refused, in their order, by category as well; its categories come in the order of first use;
and what is refused changes nothing. A lexicon finds the readings whose words agree with a word in
lower case, and lists all readings, as many as were added, behind the first with the same word. -/
theorem tables_of_histories (additions : List Grammar.Addition) (words : List Lexicon.Addition) :
    let g := Grammar.after additions
    let rules := additions.filterMap Grammar.Addition.rule?
    let lex := Lexicon.after words
    let readings := words.map Lexicon.Addition.reading
    ((∀ (before : Grammar) (a : Grammar.Addition),
        (before.add a.lhs a.rhs a.weight).isOk = a.rule?.isSome) ∧
      g.rules = rules ∧
      (∀ rule ∈ rules, rule.lhs.isCategory = true ∧ rule.rhs ≠ []) ∧
      (∀ s, g.rulesFor s = rules.filter (·.lhs == s)) ∧
      g.categories = (rules.map Rule.lhs).eraseDups ∧
      ∀ (a : Grammar.Addition) (fault : Rule.Fault), g.add a.lhs a.rhs a.weight = .error fault →
        let kept := Grammar.after (additions ++ [a])
        kept.rules = g.rules ∧ (∀ s, kept.rulesFor s = g.rulesFor s) ∧
          kept.categories = g.categories) ∧
    ((∀ word, lex.lookup word = readings.filter fun r => Text.lower r.word == Text.lower word) ∧
      lex.readings = (readings.map fun r => Text.lower r.word).eraseDups.flatMap
        (fun key => readings.filter fun r => Text.lower r.word == key) ∧
      lex.readings.Perm readings ∧
      lex.size = words.length ∧
      ∀ word, lex.has word = true ↔ lex.lookup word ≠ []) := by
  intro g rules lex readings
  have hrules : g.rules = rules := Grammar.rules_after additions
  have hreadings : lex.readings.Perm readings := Lexicon.readings_after words
  refine ⟨⟨Grammar.isOk_add, hrules, hrules ▸ g.proper, ?_, ?_, ?_⟩, ?_, ?_, hreadings, ?_, ?_⟩
  · intro s
    rw [← hrules, Grammar.rulesFor_eq]
  · rw [← hrules, Grammar.categories_eq]
  · intro a fault hadd kept
    have hkept : kept = g :=
      (Grammar.after_append_singleton additions a).trans (Grammar.attempt_of_error hadd)
    rw [hkept]
    exact ⟨rfl, fun _ => rfl, rfl⟩
  · exact Lexicon.lookup_after words
  · rw [Lexicon.readings_eq, Lexicon.groups_after]
    exact Groups.flatMap_snd_ofList Lexicon.keyOf readings
  · rw [Lexicon.size, hreadings.length_eq, List.length_map]
  · exact Lexicon.has_after_iff words

end Earley
