import BehaviorTree.Yaml.Tag

/-! Directives. Their form is checked; what they say has no effect. -/

set_option autoImplicit false

namespace BehaviorTree.Yaml.Directive

open Text

/-- A number of at most nine digits. -/
def number? (cursor : Cursor) : Option Cursor :=
  let length := (cursor.rest.takeWhile Char.isDigit).length
  if 0 < length ∧ length ≤ 9 then some (cursor.advanceBy length) else none

def version? (cursor : Cursor) : Option Cursor := do
  let cursor ← number? (cursor.skip isBlank)
  if cursor.nextIs (· == '.') then number? cursor.advance else none

def tag? (cursor : Cursor) : Option Cursor := do
  let cursor := cursor.skip isBlank
  if cursor.nextIs (· == '!') then
    let (label, closed, cursor) := Tag.label cursor
    if label.isEmpty || closed then
      let (_, cursor) ← Tag.uri? (cursor.skip isBlank)
      if ends cursor.rest then some cursor else none
    else none
  else none

def read? (cursor : Cursor) : Option Cursor := do
  let name := cursor.rest.tail.takeWhile isLabelPart
  let cursor := cursor.advanceBy (name.length + 1)
  if name.isEmpty || !ends cursor.rest then none
  else
    let cursor ←
      if name = "YAML".toList then version? cursor
      else if name = "TAG".toList then tag? cursor
      else some cursor.skipLine
    cursor.finishLine?

end BehaviorTree.Yaml.Directive
