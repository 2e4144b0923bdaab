namespace Earley.Glob

/-- Whether `c` is one of the characters up to the closing bracket, and what follows it. -/
def inClass (c : Char) : List Char → Bool × List Char
  | [] => (false, [])
  | ']' :: rest => (false, rest)
  | '\\' :: x :: rest =>
    let (found, after) := inClass c rest
    (found || x == c, after)
  | low :: '-' :: high :: rest =>
    if high == ']' then
      (low == c || '-' == c, rest)
    else
      let (found, after) := inClass c rest
      (found || (low ≤ c && c ≤ high) || (high ≤ c && c ≤ low), after)
  | x :: rest =>
    let (found, after) := inClass c rest
    (found || x == c, after)

private theorem length_inClass (c : Char) (cs : List Char) : (inClass c cs).2.length ≤ cs.length := by
  fun_induction inClass c cs <;> simp_all <;> omega

/-- One bracket at the front of a pattern: `^` inverts it. -/
def matchClass (c : Char) : List Char → Bool × List Char
  | '^' :: rest =>
    let (found, after) := inClass c rest
    (!found, after)
  | cs => inClass c cs

private theorem length_matchClass (c : Char) (cs : List Char) : (matchClass c cs).2.length ≤ cs.length := by
  unfold matchClass
  split
  · have := length_inClass c ‹_›
    simp only [List.length_cons]
    omega
  · exact length_inClass c cs

/-- Whether the whole text follows the pattern: `*` stands for any text, `?` for any character, brackets
for one of several, and a backslash takes the next character as it is. -/
def accepts : (pattern text : List Char) → Bool
  | [], [] => true
  | [], _ :: _ => false
  | '*' :: pattern, [] => accepts pattern []
  | '*' :: pattern, c :: text => accepts pattern (c :: text) || accepts ('*' :: pattern) text
  | '?' :: pattern, _ :: text => accepts pattern text
  | '[' :: pattern, c :: text =>
    (matchClass c pattern).1 && accepts (matchClass c pattern).2 text
  | '\\' :: x :: pattern, c :: text => x == c && accepts pattern text
  | x :: pattern, c :: text => x == c && accepts pattern text
  | _ :: _, [] => false
termination_by pattern text => pattern.length + text.length
decreasing_by
  all_goals simp only [List.length_cons, List.length_nil]
  all_goals try omega
  have := length_matchClass c pattern
  omega

end Earley.Glob
