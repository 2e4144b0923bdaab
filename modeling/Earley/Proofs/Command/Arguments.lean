import Earley.Command
import Mathlib.Data.List.Forall2

namespace Earley.Command

open Arguments (Stage)

/-- An option of the command that parses, with what is given for it; the number of trees has a text and
is the integer in it. -/
inductive Choice where
  | grammar (name : String)
  | lexicon (name : String)
  | grammarFile (file : String)
  | lexiconFile (file : String)
  | limit (text : String) (number : Int)
  | remote
  | json
deriving DecidableEq

namespace Choice

/-- The option's name. -/
def name : Choice → String
  | .grammar _ => "--grammar"
  | .lexicon _ => "--lexicon"
  | .grammarFile _ => "--grammar-file"
  | .lexiconFile _ => "--lexicon-file"
  | .limit .. => "--max-trees"
  | .remote => "--remote"
  | .json => "--json"

/-- What stands behind the name. -/
def given? : Choice → Option String
  | .grammar text | .lexicon text | .grammarFile text | .lexiconFile text | .limit text _ => some text
  | .remote | .json => none

/-- The option in a line. -/
def texts (c : Choice) : List String :=
  c.name :: c.given?.toList

/-- What the option is set to. -/
def setting : Choice → Setting
  | .grammar text | .lexicon text | .grammarFile text | .lexiconFile text => .text text
  | .limit _ number => .number number
  | .remote | .json => .on

/-- The option among the arguments of a command. -/
def put (c : Choice) (a : Arguments) : Arguments :=
  { a with settings := a.settings ++ [(c.name, c.setting)] }

/-- What the option does to those set before. -/
def apply (c : Choice) (o : ParseOptions) : ParseOptions :=
  match c with
  | .grammar text => { o with grammar := some text }
  | .lexicon text => { o with lexicon := some text }
  | .grammarFile text => { o with grammarFile := nonempty (some text) }
  | .lexiconFile text => { o with lexiconFile := nonempty (some text) }
  | .limit _ number => { o with limit := some number }
  | .remote => { o with remote := true }
  | .json => { o with json := true }

/-- Options among the arguments, in their order. -/
def putAll (cs : List Choice) (a : Arguments) : Arguments :=
  cs.foldl (fun a c => c.put a) a

/-- What options do to those set before, one after the other. -/
def applyAll (cs : List Choice) (o : ParseOptions) : ParseOptions :=
  cs.foldl (fun o c => c.apply o) o

/-- What stands behind the name is no option itself, and the number in it is the one that is read. -/
def Clear (c : Choice) : Prop :=
  (∀ text ∈ c.given?, text.toList.head? ≠ some '-') ∧
    ∀ text number, c = .limit text number → Decimal.readInt text = .ok number

end Choice

/-- The line that asks for the words to be parsed, with options before and behind them. -/
def parseLine (before : List Choice) (line : List String) (after : List Choice) : List String :=
  "parse" :: (before.flatMap Choice.texts ++ line ++ after.flatMap Choice.texts)

/-- The texts are sorted one by one; the divider, which ends this, is not among them. -/
def Sorts (u : Usage) : List String → List Argument → Prop :=
  List.Forall₂ fun text argument => text ≠ "--" ∧ Argument.ofText u text = .ok argument

private theorem Sorts.ofTexts_eq {u : Usage} {texts : List String} {sorted : List Argument}
    (h : Sorts u texts sorted) : Argument.ofTexts u texts = .ok sorted := by
  induction h with
  | nil => rfl
  | cons hfirst _ ih =>
    obtain ⟨hne, hfirst⟩ := hfirst
    rw [Argument.ofTexts, if_neg (by simpa using hne), hfirst, ih]
    rfl

/-- A text that does not begin with a hyphen is a word. -/
theorem sorts_word (u : Usage) {text : String} (h : text.toList.head? ≠ some '-') :
    text ≠ "--" ∧ Argument.ofText u text = .ok (.word text) := by
  constructor
  · rintro rfl
    exact h rfl
  · rw [Argument.ofText]
    dsimp only
    split
    · next htext =>
      rw [htext] at h
      exact absurd rfl h
    · rfl

private theorem sorts_words (u : Usage) {texts : List String}
    (h : ∀ text ∈ texts, text.toList.head? ≠ some '-') :
    Sorts u texts (texts.map .word) := by
  induction texts with
  | nil => exact .nil
  | cons text rest ih =>
    obtain ⟨htext, hrest⟩ := List.forall_mem_cons.1 h
    exact .cons (sorts_word u htext) (ih hrest)

/-- Each option of the command is found by its name; the program itself knows none of them. -/
theorem ofText_flag : ∀ flag ∈ parseUsage.flags,
    Argument.ofText parseUsage flag.name = .ok (.option flag none) ∧
      Argument.ofText mainUsage flag.name = .ok (.unknown flag.name) := by
  intro flag hflag
  simp only [parseUsage, usageOf, List.mem_cons, List.not_mem_nil, or_false] at hflag
  rcases hflag with rfl | rfl | rfl | rfl | rfl | rfl | rfl <;> exact ⟨rfl, rfl⟩

namespace Choice

/-- The flag of the option. -/
def flag (c : Choice) : Flag :=
  (parseUsage.flags.find? (·.name == c.name)).getD Flag.help

private theorem flag_mem (c : Choice) : c.flag ∈ parseUsage.flags := by
  cases c <;> simp [flag, name, parseUsage, usageOf]

private theorem name_flag (c : Choice) : c.flag.name = c.name := by
  cases c <;> rfl

private theorem takesValue_flag (c : Choice) : c.flag.form.takesValue = c.given?.isSome := by
  cases c <;> rfl

/-- The sorted option. -/
def sorted (c : Choice) : List Argument :=
  .option c.flag none :: c.given?.toList.map .word

private theorem sorts (c : Choice) (h : c.Clear) : Sorts parseUsage c.texts c.sorted ∧
    Sorts mainUsage c.texts (.unknown c.name :: c.given?.toList.map .word) := by
  have hname : c.name ≠ "--" := by cases c <;> simp [name]
  have hgiven : ∀ text ∈ c.given?.toList, text.toList.head? ≠ some '-' :=
    fun text htext => h.1 text (Option.mem_toList.1 htext)
  obtain ⟨hsorted, hunknown⟩ := ofText_flag c.flag c.flag_mem
  rw [c.name_flag] at hsorted hunknown
  exact ⟨.cons ⟨hname, hsorted⟩ (sorts_words parseUsage hgiven),
    .cons ⟨hname, hunknown⟩ (sorts_words mainUsage hgiven)⟩

/-- An option is set to what is given for it. -/
theorem set_eq (c : Choice) (h : c.Clear) (a : Arguments) :
    a.set parseUsage c.flag (c.given?.getD "") = .ok (c.put a) := by
  have hvalue (text : String) (hgiven : c.given? = some text) : (text == "--") = false := by
    refine beq_false_of_ne ?_
    rintro rfl
    exact h.1 _ hgiven rfl
  rw [Arguments.set, c.name_flag]
  cases c with
  | grammar text | lexicon text | grammarFile text | lexiconFile text =>
    simp only [given?, Option.getD_some, hvalue text rfl]
    rfl
  | limit text number =>
    simp only [given?, Option.getD_some, hvalue text rfl, h.2 text number rfl]
    rfl
  | remote | json => rfl

/-- An option takes what is given for it and changes nothing else. -/
theorem read_eq (c : Choice) (h : c.Clear) (a : Arguments) (stage : Stage) (rest : List Argument)
    (more : List String) : Arguments.read parseUsage a stage (c.sorted ++ rest) (c.texts ++ more) =
      Arguments.read parseUsage (c.put a) stage.afterOption rest more := by
  have hset := c.set_eq h a
  have hform := c.takesValue_flag
  unfold sorted texts
  cases hgiven : c.given? with
  | some text =>
    rw [hgiven, Option.getD_some] at hset
    rw [hgiven, Option.isSome_some] at hform
    simp only [Option.toList_some, List.map_cons, List.map_nil, List.cons_append, List.nil_append]
    rw [Arguments.read, if_pos hform, hset]
    rfl
  | none =>
    rw [hgiven, Option.getD_none] at hset
    rw [hgiven, Option.isSome_none] at hform
    have hread : Arguments.read parseUsage a stage (.option c.flag none :: rest) (c.name :: more) =
        (a.set parseUsage c.flag "" >>= fun a =>
          Arguments.read parseUsage a stage.afterOption rest more) := by
      -- What follows a switch is not its value.
      cases rest with
      | nil => simp [Arguments.read, hform]
      | cons first others => cases first <;> simp [Arguments.read, hform]
    rw [hset] at hread
    exact hread

end Choice

private theorem read_choices {cs : List Choice} (h : ∀ c ∈ cs, c.Clear) (a : Arguments) (stage : Stage)
    (rest : List Argument) (more : List String) :
    Arguments.read parseUsage a stage (cs.flatMap Choice.sorted ++ rest) (cs.flatMap Choice.texts ++ more) =
      Arguments.read parseUsage (Choice.putAll cs a) (cs.foldl (fun stage _ => stage.afterOption) stage)
        rest more := by
  induction cs generalizing a stage with
  | nil => rfl
  | cons c cs ih =>
    obtain ⟨hc, hcs⟩ := List.forall_mem_cons.1 h
    rw [List.flatMap_cons, List.flatMap_cons, List.append_assoc, List.append_assoc, c.read_eq hc, ih hcs]
    rfl

/-- Before the words, options leave it open where they begin. -/
theorem foldl_afterOption_before (cs : List Choice) :
    cs.foldl (fun stage _ => stage.afterOption) Stage.before = .before := by
  induction cs with
  | nil => rfl
  | cons c cs ih => exact ih

private theorem read_word (a : Arguments) {stage : Stage} (hstage : stage ≠ .after) (word : String)
    (rest : List Argument) (texts : List String) :
    Arguments.read parseUsage a stage (.word word :: rest) texts =
      Arguments.read parseUsage (a.addWord word) .within rest texts.tail := by
  cases stage with
  | before | within => rfl
  | after => exact absurd rfl hstage

/-- Words in one row are taken all. -/
theorem read_words {line : List String} (hne : line ≠ []) (a : Arguments) {stage : Stage}
    (hstage : stage ≠ .after) (rest : List Argument) (more : List String) :
    Arguments.read parseUsage a stage (line.map .word ++ rest) (line ++ more) =
      Arguments.read parseUsage { a with words := a.words ++ line } .within rest more := by
  induction line generalizing a stage with
  | nil => exact absurd rfl hne
  | cons word line ih =>
    rw [List.map_cons, List.cons_append, List.cons_append, read_word a hstage, List.tail_cons]
    cases line with
    | nil => rfl
    | cons next line =>
      rw [ih (List.cons_ne_nil next line) (a.addWord word) (by decide)]
      simp [Arguments.addWord]

section

variable {before after : List Choice} {line : List String}

private theorem putAll_eq (cs : List Choice) (a : Arguments) : Choice.putAll cs a =
    { a with settings := a.settings ++ cs.map fun c => (c.name, c.setting) } := by
  induction cs generalizing a with
  | nil => simp [Choice.putAll]
  | cons c cs ih =>
    have hfirst : Choice.putAll (c :: cs) a = Choice.putAll cs (c.put a) := rfl
    rw [hfirst, ih]
    simp [Choice.put]

private theorem sorts_choices {cs : List Choice} (h : ∀ c ∈ cs, c.Clear) :
    Sorts parseUsage (cs.flatMap Choice.texts) (cs.flatMap Choice.sorted) ∧
      ∃ sorted, Sorts mainUsage (cs.flatMap Choice.texts) sorted := by
  induction cs with
  | nil => exact ⟨.nil, [], .nil⟩
  | cons c cs ih =>
    obtain ⟨hc, hcs⟩ := List.forall_mem_cons.1 h
    obtain ⟨hsorts, hunknown⟩ := c.sorts hc
    obtain ⟨hrest, sorted, hsorted⟩ := ih hcs
    exact ⟨List.rel_append hsorts hrest, _, List.rel_append hunknown hsorted⟩

/-- The arguments behind the name of the command. -/
theorem ofTexts_arguments (hclear : ∀ c ∈ before ++ after, c.Clear) (hne : line ≠ [])
    (hline : ∀ word ∈ line, word.toList.head? ≠ some '-') :
    Arguments.ofTexts parseUsage (before.flatMap Choice.texts ++ line ++ after.flatMap Choice.texts) =
      .ok (Choice.putAll (before ++ after) { words := line }) := by
  obtain ⟨hbefore, hafter⟩ := List.forall_mem_append.1 hclear
  have hsorts : Sorts parseUsage _ _ := List.rel_append
    (List.rel_append (sorts_choices hbefore).1 (sorts_words parseUsage hline)) (sorts_choices hafter).1
  rw [Arguments.ofTexts, hsorts.ofTexts_eq]
  simp only [bind, Except.bind, List.append_assoc]
  rw [read_choices hbefore, foldl_afterOption_before, read_words hne _ (by decide)]
  have hrest := read_choices hafter
    { Choice.putAll before {} with words := (Choice.putAll before {}).words ++ line } .within [] []
  rw [List.append_nil, List.append_nil] at hrest
  rw [hrest, Arguments.read, putAll_eq, putAll_eq, putAll_eq]
  simp

private theorem setting?_put (c : Choice) (a : Arguments) (name : String) :
    (c.put a).setting? name = if c.name == name then some c.setting else a.setting? name := by
  rw [Arguments.setting?, Choice.put, List.reverse_append, List.reverse_singleton,
    List.singleton_append]
  by_cases hname : c.name == name
  · rw [List.find?_cons_of_pos (by exact hname), if_pos hname]
    rfl
  · rw [List.find?_cons_of_neg (by exact hname), if_neg hname]
    rfl

private theorem ofArguments_put (c : Choice) (a : Arguments) :
    ParseOptions.ofArguments (c.put a) = c.apply (ParseOptions.ofArguments a) := by
  have hwords : (c.put a).words = a.words := rfl
  cases c <;>
    simp [ParseOptions.ofArguments, Arguments.textOr, Arguments.text?, Arguments.numberOr, Arguments.isOn,
      setting?_put, hwords, Choice.name, Choice.setting, Choice.apply]

private theorem ofArguments_putAll (cs : List Choice) (a : Arguments) :
    ParseOptions.ofArguments (Choice.putAll cs a) =
      Choice.applyAll cs (ParseOptions.ofArguments a) := by
  induction cs generalizing a with
  | nil => rfl
  | cons c cs ih =>
    have hfirst : Choice.putAll (c :: cs) a = Choice.putAll cs (c.put a) := rfl
    rw [hfirst, ih, ofArguments_put]
    rfl

/-- What a line asks for. -/
theorem ofTexts_parseLine (hclear : ∀ c ∈ before ++ after, c.Clear) (hne : line ≠ [])
    (hline : ∀ word ∈ line, word.toList.head? ≠ some '-') :
    ofTexts (parseLine before line after) =
      .ok (.parse (Choice.applyAll (before ++ after) { sentence := line })) := by
  obtain ⟨hbefore, hafter⟩ := List.forall_mem_append.1 hclear
  obtain ⟨front, hfront⟩ := (sorts_choices hbefore).2
  obtain ⟨back, hback⟩ := (sorts_choices hafter).2
  have hsorts : Sorts mainUsage (parseLine before line after)
      (.word "parse" :: (front ++ line.map .word ++ back)) :=
    .cons (sorts_word mainUsage (by decide))
      (List.rel_append (List.rel_append hfront (sorts_words mainUsage hline)) hback)
  have hread : Arguments.ofTexts mainUsage (parseLine before line after) =
      .ok { words := parseLine before line after } := by
    rw [Arguments.ofTexts, hsorts.ofTexts_eq]
    rfl
  have hcomplete : (Choice.putAll (before ++ after) { words := line }).isComplete parseUsage = true := by
    rw [putAll_eq]
    simpa [Arguments.isComplete] using .inr hne
  have hoptions : ParseOptions.ofArguments (Choice.putAll (before ++ after) { words := line }) =
      Choice.applyAll (before ++ after) { sentence := line } := ofArguments_putAll _ _
  have hfinish : finish parseUsage
      (before.flatMap Choice.texts ++ line ++ after.flatMap Choice.texts)
      (fun a => some (.parse (ParseOptions.ofArguments a))) =
        .ok (.parse (Choice.applyAll (before ++ after) { sentence := line })) := by
    rw [finish, ofTexts_arguments hclear hne hline]
    simp only [bind, Except.bind]
    rw [hcomplete, hoptions]
  rw [ofTexts, choose, hread]
  simp only [bind, Except.bind, parseLine, hfinish]
  rfl

end

end Earley.Command
