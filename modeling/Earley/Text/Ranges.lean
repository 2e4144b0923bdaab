namespace Earley.Text

/-- Inclusive ranges of code points, in ascending order, so that a search can stop at the first range
that begins past the code point. -/
abbrev Ranges := List (Nat × Nat)

/-- Whether some range of the table holds `n`. -/
def Ranges.contains : Ranges → Nat → Bool
  | [], _ => false
  | (low, high) :: rest, n => if n < low then false else n ≤ high || Ranges.contains rest n

/-- Each range begins past the end of the one before it. -/
def Ranges.ascending : Ranges → Bool
  | (low, high) :: (low', high') :: rest =>
    low ≤ high && high < low' && Ranges.ascending ((low', high') :: rest)
  | [(low, high)] => low ≤ high
  | [] => true

end Earley.Text
