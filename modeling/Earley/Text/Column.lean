namespace Earley.Text

/-- A row of spaces. -/
def spaces (n : Nat) : String := String.ofList (List.replicate n ' ')

/-- The text at the left of a column. A text that is wider than its column is left as it is. -/
def padRight (width : Nat) (s : String) : String := s ++ spaces (width - s.length)

/-- The text at the right of a column. -/
def padLeft (width : Nat) (s : String) : String := spaces (width - s.length) ++ s

end Earley.Text
