import BehaviorTree.Yaml.Cursor

/-! Scalars and the white space inside them. Where words of a scalar are separated by one line
break, the break stands for a space; further breaks are kept. -/

set_option autoImplicit false

namespace BehaviorTree.Yaml

open Text

inductive Style where
  | plain
  | quoted
  | block
  deriving Repr, DecidableEq

structure Scalar where
  style : Style
  text : String
  deriving Repr, DecidableEq

/-- White space between two words: the blanks before its first line break, and the number of line
breaks. Blanks at the end and at the beginning of a line are not kept. -/
structure Gap where
  blanks : List Char
  breaks : Nat
  deriving Repr, DecidableEq

namespace Gap

def none : Gap := ⟨[], 0⟩

def isNone (gap : Gap) : Bool := gap.blanks.isEmpty && gap.breaks == 0

def text (gap : Gap) : List Char :=
  match gap.breaks with
  | 0 => gap.blanks
  | 1 => [' ']
  | count + 2 => List.replicate (count + 1) '\n'

def textAfterEscape (gap : Gap) : List Char := List.replicate gap.breaks '\n'

/-- Reads on in a gap. A tab left of the margin is refused on every line but the first. -/
def read (margin : Nat) (gap : Gap) (cursor : Cursor) : Option (Gap × Cursor) :=
  match found : cursor.rest with
  | [] => some (gap, cursor)
  | c :: _ =>
    have := Cursor.length_rest_advance_lt found
    have := Cursor.length_rest_advanceLine_lt found
    if isBlank c then
      if gap.breaks = 0 then read margin { gap with blanks := gap.blanks ++ [c] } cursor.advance
      else if c = '\t' ∧ cursor.column < margin then .none
      else read margin gap cursor.advance
    else if isLineBreak c then read margin { gap with breaks := gap.breaks + 1 } cursor.advanceLine
    else some (gap, cursor)
termination_by cursor.rest.length

end Gap

end BehaviorTree.Yaml
