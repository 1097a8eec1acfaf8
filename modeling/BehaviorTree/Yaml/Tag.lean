import BehaviorTree.Text.Radix
import BehaviorTree.Yaml.Cursor

/-! Tags: `!<uri>`, or a handle and a suffix. A handle is a label between exclamation marks; without
the second mark the label belongs to the suffix. -/

set_option autoImplicit false

namespace BehaviorTree.Yaml

open Text

/-- The tag `!` alone has no handle. -/
structure Tag where
  handle : String
  suffix : String
  deriving Repr, DecidableEq

namespace Tag

def isUriPart (c : Char) : Bool := isLabelPart c || ";/?:@&=+$,.!~*'()[]%".toList.contains c

def octet? : List Char → Option Nat
  | '%' :: high :: low :: _ => natural? 16 [high, low]
  | _ => none

def octetsAfter? (first : Nat) : Option Nat :=
  if first < 0x80 then some 0
  else if first / 0x20 = 0b110 then some 1
  else if first / 0x10 = 0b1110 then some 2
  else if first / 8 = 0b11110 then some 3
  else none

def octetAfter? (s : List Char) : Option Nat :=
  (octet? s).filter (· / 0x40 = 0b10)

/-- An escaped character and the number of octets after its first. The octets together, without
their marker bits being removed, are its code point. -/
def escaped? (s : List Char) : Option (Char × Nat) := do
  let first ← octet? s
  let count ← octetsAfter? first
  let others ← (List.range count).mapM fun n => octetAfter? (s.drop (3 * n + 3))
  let c ← charOfCode? (others.foldl (fun code octet => 0x100 * code + octet) first)
  some (c, count)

def uri (cursor : Cursor) : Option (List Char × Cursor) :=
  match found : cursor.rest with
  | [] => some ([], cursor)
  | c :: _ =>
    if c = '%' then
      match escaped? cursor.rest with
      | none => none
      | some (d, count) =>
        have := Cursor.length_rest_advanceBy_lt found (3 * count + 2)
        (uri (cursor.advanceBy (3 * count + 3))).map fun (text, last) => (d :: text, last)
    else if isUriPart c then
      have := Cursor.length_rest_advance_lt found
      (uri cursor.advance).map fun (text, last) => (c :: text, last)
    else some ([], cursor)
termination_by cursor.rest.length

def uri? (cursor : Cursor) : Option (String × Cursor) := do
  let (text, cursor) ← uri cursor
  if text.isEmpty then none else some (String.ofList text, cursor)

def label (cursor : Cursor) : List Char × Bool × Cursor :=
  let label := cursor.rest.tail.takeWhile isLabelPart
  let cursor := cursor.advanceBy (label.length + 1)
  if cursor.nextIs (· == '!') then (label, true, cursor.advance) else (label, false, cursor)

def verbatim? (cursor : Cursor) : Option (Tag × Cursor) := do
  let (suffix, cursor) ← uri? (cursor.advanceBy 2)
  if cursor.nextIs (· == '>') then some (⟨"", suffix⟩, cursor.advance) else none

def shorthand? (cursor : Cursor) : Option (Tag × Cursor) := do
  let (label, closed, cursor) := label cursor
  if closed then
    let (suffix, cursor) ← uri? cursor
    some (⟨String.ofList ('!' :: label ++ ['!']), suffix⟩, cursor)
  else
    let (text, cursor) ← uri cursor
    let suffix := label ++ text
    some (if suffix.isEmpty then ⟨"", "!"⟩ else ⟨"!", String.ofList suffix⟩, cursor)

/-- Reads a tag at an exclamation mark. White space or the end must follow it. -/
def read? (cursor : Cursor) : Option (Tag × Cursor) := do
  let (tag, cursor) ←
    if cursor.advance.nextIs (· == '<') then verbatim? cursor else shorthand? cursor
  if ends cursor.rest then some (tag, cursor) else none

end Tag

end BehaviorTree.Yaml
