import BehaviorTree.Yaml.Scalar

/-! Block scalars: whole lines at a margin, kept as they are (literal) or folded. The margin is given
in the header or taken from the first line. -/

set_option autoImplicit false

namespace BehaviorTree.Yaml.Block

open Text

/-- What becomes of the line breaks at the end: one is kept, none, or all. -/
inductive Chomping where
  | clip
  | strip
  | keep
  deriving Repr, DecidableEq

structure Header where
  chomping : Chomping
  /-- The margin given, counted from the enclosing collection. -/
  indent : Option Nat
  deriving Repr, DecidableEq

def takeChomping (cursor : Cursor) : Option Chomping × Cursor :=
  match cursor.rest with
  | '+' :: _ => (some .keep, cursor.advance)
  | '-' :: _ => (some .strip, cursor.advance)
  | _ => (none, cursor)

def takeDigit (cursor : Cursor) : Option Nat × Cursor :=
  match cursor.rest with
  | c :: _ => if c.isDigit then (some (c.toNat - '0'.toNat), cursor.advance) else (none, cursor)
  | [] => (none, cursor)

def takeIndicators (cursor : Cursor) : Header × Cursor :=
  match takeChomping cursor with
  | (some chomping, cursor) =>
    let (indent, cursor) := takeDigit cursor
    (⟨chomping, indent⟩, cursor)
  | (none, cursor) =>
    match takeDigit cursor with
    | (none, cursor) => (⟨.clip, none⟩, cursor)
    | (indent, cursor) =>
      let (chomping, cursor) := takeChomping cursor
      (⟨chomping.getD .clip, indent⟩, cursor)

def Header.read? (cursor : Cursor) : Option (Header × Cursor) := do
  let (header, cursor) := takeIndicators cursor
  if header.indent = some 0 then none
  else
    let cursor ← cursor.finishLine?
    some (header, cursor)

def isInside (margin : Option Nat) (column : Nat) : Bool := margin.all (column < ·)

def skipIndent (margin : Option Nat) (cursor : Cursor) : Cursor :=
  let spaces := (cursor.rest.takeWhile (· == ' ')).length
  cursor.advanceBy (match margin with
    | none => spaces
    | some margin => min spaces (margin - cursor.column))

theorem length_rest_skipIndent_le (margin : Option Nat) (cursor : Cursor) :
    (skipIndent margin cursor).rest.length ≤ cursor.rest.length := by
  simp [skipIndent]

/-- Empty lines, up to the margin of the next line with text: the greatest column met and the number
of line breaks. A tab cannot stand left of the margin. -/
def emptyLines (margin : Option Nat) (deepest breaks : Nat) (cursor : Cursor) : Option (Nat × Nat × Cursor) :=
  let place := skipIndent margin cursor
  let deepest := max deepest place.column
  match found : place.rest with
  | [] => some (deepest, breaks, place)
  | c :: _ =>
    have := Nat.lt_of_lt_of_le (Cursor.length_rest_advanceLine_lt found) (length_rest_skipIndent_le margin cursor)
    if isInside margin place.column && c == '\t' then none
    else if isLineBreak c then emptyLines margin deepest (breaks + 1) place.advanceLine
    else some (deepest, breaks, place)
termination_by cursor.rest.length

/-- A line break that is not yet written, whether the line before it began with a blank, and the
number of empty lines after it. -/
structure Pending where
  joint : Bool
  blank : Bool
  breaks : Nat
  deriving Repr, DecidableEq

/-- What stands for the pending line breaks before a line. A folded break between two lines that do not
begin with a blank is a space, or nothing if empty lines follow it. -/
def Pending.text (pending : Pending) (folded blank : Bool) : List Char :=
  let joint :=
    if !pending.joint then []
    else if folded && !pending.blank && !blank then if pending.breaks = 0 then [' '] else []
    else ['\n']
  joint ++ List.replicate pending.breaks '\n'

def lines (folded : Bool) (margin : Nat) (pending : Pending) (cursor : Cursor) :
    Option (List Char × Pending × Cursor) :=
  if cursor.column = margin ∧ ¬cursor.rest.isEmpty then do
    let blank := cursor.nextIs isBlank
    let line := cursor.rest.takeWhile fun c => !isLineBreak c
    let text := pending.text folded blank ++ line
    let ending := cursor.advanceBy line.length
    if ending.rest.isEmpty then some (text, ⟨false, blank, 0⟩, ending)
    else
      let (_, breaks, place) ← emptyLines (some margin) 0 0 ending.advanceLine
      if place.rest.length < cursor.rest.length then
        let (more, last) ← lines folded margin ⟨true, blank, breaks⟩ place
        some (text ++ more, last)
      else none
  else some ([], pending, cursor)
termination_by cursor.rest.length

def Chomping.text (chomping : Chomping) (pending : Pending) : List Char :=
  let joint := if pending.joint then ['\n'] else []
  match chomping with
  | .strip => []
  | .clip => joint
  | .keep => joint ++ List.replicate pending.breaks '\n'

/-- Reads on after the mark. `inner` is the least column inside the enclosing collection. -/
def read (folded : Bool) (inner : Nat) (cursor : Cursor) : Option (List Char × Cursor) := do
  let (header, cursor) ← Header.read? cursor
  let given := header.indent.map (inner - 1 + ·)
  let (deepest, breaks, cursor) ← emptyLines given 0 0 cursor
  let margin := given.getD (max deepest (max inner 1))
  let (text, pending, cursor) ← lines folded margin ⟨false, false, breaks⟩ cursor
  some (text ++ header.chomping.text pending, cursor)

end BehaviorTree.Yaml.Block
