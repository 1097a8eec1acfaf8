import BehaviorTree.Text.Classes

/-! A place in a text: the characters ahead and where they stand. Lines are counted at line feeds
alone, so a carriage return without one does not begin a new column count. -/

set_option autoImplicit false

namespace BehaviorTree.Yaml

open Text

def isFlowMark (c : Char) : Bool := c == ',' || c == '[' || c == ']' || c == '{' || c == '}'

def isLabelPart (c : Char) : Bool := c.isAlphanum || c == '_' || c == '-'

def ends : List Char → Bool
  | [] => true
  | c :: _ => isSpace c

structure Cursor where
  rest : List Char
  index : Nat
  line : Nat
  column : Nat
  deriving Repr, DecidableEq

namespace Cursor

/-- A text ends at its first null character. -/
def ofText (text : String) : Cursor := ⟨text.toList.takeWhile (· != '\x00'), 0, 0, 0⟩

def nextIs (cursor : Cursor) (test : Char → Bool) : Bool := cursor.rest.head?.any test

def advance (cursor : Cursor) : Cursor :=
  match cursor.rest with
  | [] => cursor
  | c :: rest =>
    if c = '\n' then ⟨rest, cursor.index + 1, cursor.line + 1, 0⟩
    else ⟨rest, cursor.index + 1, cursor.line, cursor.column + 1⟩

def advanceBy : Nat → Cursor → Cursor
  | 0, cursor => cursor
  | count + 1, cursor => advanceBy count cursor.advance

def skip (test : Char → Bool) (cursor : Cursor) : Cursor :=
  cursor.advanceBy (cursor.rest.takeWhile test).length

/-- A carriage return and the line feed after it are one line break. -/
def breakLength : List Char → Nat
  | '\r' :: '\n' :: _ => 2
  | _ => 1

def advanceLine (cursor : Cursor) : Cursor := cursor.advanceBy (breakLength cursor.rest)

def skipLine (cursor : Cursor) : Cursor := cursor.skip fun c => !isLineBreak c

def finishLine? (cursor : Cursor) : Option Cursor :=
  let cursor := cursor.skip isBlank
  let cursor := if cursor.nextIs (· == '#') then cursor.skipLine else cursor
  if cursor.rest.isEmpty then some cursor
  else if cursor.nextIs isLineBreak then some cursor.advanceLine
  else none

def atMark (mark : List Char) (cursor : Cursor) : Bool :=
  cursor.column == 0 && mark.isPrefixOf cursor.rest && ends (cursor.rest.drop mark.length)

def startMark : List Char := ['-', '-', '-']

def endMark : List Char := ['.', '.', '.']

def atDocumentMark (cursor : Cursor) : Bool := cursor.atMark startMark || cursor.atMark endMark

@[simp] theorem rest_advance (cursor : Cursor) : cursor.advance.rest = cursor.rest.tail := by
  unfold advance
  split
  · simp_all
  · split <;> simp_all

@[simp] theorem rest_advanceBy (count : Nat) (cursor : Cursor) :
    (cursor.advanceBy count).rest = cursor.rest.drop count := by
  induction count generalizing cursor with
  | zero => rfl
  | succ count ih => rw [advanceBy, ih, rest_advance, List.drop_tail, Nat.add_comm]

theorem breakLength_pos (s : List Char) : 0 < breakLength s := by
  unfold breakLength
  split <;> decide

theorem length_rest_advance_lt {cursor : Cursor} {c : Char} {s : List Char} (found : cursor.rest = c :: s) :
    cursor.advance.rest.length < cursor.rest.length := by
  simp [found]

theorem length_rest_advanceBy_lt {cursor : Cursor} {c : Char} {s : List Char} (found : cursor.rest = c :: s)
    (count : Nat) : (cursor.advanceBy (count + 1)).rest.length < cursor.rest.length := by
  rw [rest_advanceBy, List.length_drop, found, List.length_cons]
  omega

theorem length_rest_advanceLine_lt {cursor : Cursor} {c : Char} {s : List Char}
    (found : cursor.rest = c :: s) : cursor.advanceLine.rest.length < cursor.rest.length := by
  have positive := breakLength_pos cursor.rest
  rw [advanceLine, rest_advanceBy, List.length_drop, found, List.length_cons]
  rw [found] at positive
  omega

theorem length_rest_skipLine_lt {cursor : Cursor} {c : Char} {s : List Char} (found : cursor.rest = c :: s) :
    cursor.advance.skipLine.rest.length < cursor.rest.length := by
  rw [skipLine, skip, rest_advanceBy, List.length_drop, rest_advance, found, List.tail_cons, List.length_cons]
  omega

end Cursor

end BehaviorTree.Yaml
