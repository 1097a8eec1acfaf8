/-! Character classes of the definition language. Every class is ASCII. -/

set_option autoImplicit false

namespace BehaviorTree.Text

def isBlank (c : Char) : Bool := c == ' ' || c == '\t'

def isLineBreak (c : Char) : Bool := c == '\r' || c == '\n'

def isSpace (c : Char) : Bool := isBlank c || isLineBreak c

def isNameStart (c : Char) : Bool := c.isAlpha || c == '_'

def isNamePart (c : Char) : Bool := c.isAlphanum || c == '_'

theorem length_dropWhile_le (p : Char → Bool) (s : List Char) : (s.dropWhile p).length ≤ s.length :=
  (List.dropWhile_suffix p).length_le

theorem length_lt_of_dropWhile {p : Char → Bool} {s t : List Char} {c : Char}
    (found : s.dropWhile p = c :: t) : t.length < s.length := by
  have bound := length_dropWhile_le p s
  rw [found, List.length_cons] at bound
  omega

end BehaviorTree.Text
