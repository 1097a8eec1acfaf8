import BehaviorTree.Yaml.Scalar

/-! Plain scalars: text without quotes. It ends before a colon that white space follows, before a
comment, before a document mark, and outside flow collections before a line left of the margin. -/

set_option autoImplicit false

namespace BehaviorTree.Yaml.Plain

open Text

def stops (flow : Bool) : List Char → Bool
  | [] => true
  | ':' :: rest => ends rest || flow && rest.head?.any isFlowMark
  | c :: _ => isSpace c || flow && isFlowMark c

def word (flow : Bool) : List Char → List Char
  | [] => []
  | c :: rest => if stops flow (c :: rest) then [] else c :: word flow rest

/-- Reads on after a gap, which is kept only if a word follows it. The gap in the answer is the last
one, which no word follows. -/
def read (flow : Bool) (margin : Nat) (gap : Gap) (cursor : Cursor) : Option (List Char × Gap × Cursor) :=
  if cursor.atDocumentMark || cursor.nextIs (· == '#') then some ([], gap, cursor)
  else
    let word := word flow cursor.rest
    let text := if word.isEmpty then [] else gap.text ++ word
    let after := cursor.advanceBy word.length
    match Gap.read margin .none after with
    | none => none
    | some (next, place) =>
      if next.isNone then some (text, if word.isEmpty then gap else next, place)
      else if !flow && place.column < margin then some (text, next, place)
      else if place.rest.length < cursor.rest.length then
        (read flow margin next place).map fun (more, last) => (text ++ more, last)
      else none
termination_by cursor.rest.length

end BehaviorTree.Yaml.Plain
