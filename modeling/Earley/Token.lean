import Earley.Text.Blank
import Earley.Text.Word

namespace Earley

open Text

/-- A piece of a text and its offset there, counted in characters. -/
structure Token where
  text : String
  position : Nat
deriving DecidableEq, Repr

namespace Token

/-- A token that begins with a word character is a word; all others are marks. -/
def isWord (t : Token) : Bool :=
  t.text.toList.head?.any isWordChar

/-- The longest word at the front of a text, and what follows it. An apostrophe belongs to the word
only if a word character comes after it. -/
def takeWord (cs : List Char) : List Char × List Char :=
  let run := cs.takeWhile isWordChar
  match cs.dropWhile isWordChar with
  | '\'' :: c :: rest =>
    if isWordChar c then
      (run ++ '\'' :: (c :: rest).takeWhile isWordChar, (c :: rest).dropWhile isWordChar)
    else (run, '\'' :: c :: rest)
  | rest => (run, rest)

private theorem length_dropWhile_le {α : Type} (p : α → Bool) (l : List α) :
    (l.dropWhile p).length ≤ l.length :=
  (List.dropWhile_sublist p).length_le

/-- The rest of a text after its word is no longer than after its first character. -/
theorem length_takeWord_snd {c : Char} (hc : isWordChar c = true) (cs : List Char) :
    (takeWord (c :: cs)).2.length ≤ cs.length := by
  have hdrop : ((c :: cs).dropWhile isWordChar).length ≤ cs.length := by
    simpa [List.dropWhile_cons, hc] using length_dropWhile_le isWordChar cs
  unfold takeWord
  split
  · next d rest heq =>
    rw [heq] at hdrop
    have hrest := length_dropWhile_le isWordChar (d :: rest)
    simp only [List.length_cons] at hdrop hrest
    split <;> simp only [List.length_cons] <;> omega
  · exact hdrop

/-- The tokens of a text whose first character stands at `position`. -/
def scanFrom (position : Nat) : List Char → List Token
  | [] => []
  | c :: cs =>
    if hc : isWordChar c = true then
      let word := takeWord (c :: cs)
      ⟨String.ofList word.1, position⟩ :: scanFrom (position + word.1.length) word.2
    else if isBlank c then scanFrom (position + 1) cs
    else ⟨String.ofList [c], position⟩ :: scanFrom (position + 1) cs
termination_by cs => cs.length
decreasing_by
  · have := length_takeWord_snd hc cs
    simp only [List.length_cons]
    omega
  · simp
  · simp

end Token

/-- The tokens of a text, in order. A token is a word, which may hold one apostrophe between word
characters, or a single mark; blanks separate tokens and belong to none. -/
def tokenize (text : String) : List Token :=
  Token.scanFrom 0 text.toList

/-- The words of a text, in order and with their capitals. -/
def words (text : String) : List String :=
  ((tokenize text).filter Token.isWord).map Token.text

end Earley
