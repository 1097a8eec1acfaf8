import BehaviorTree.Text.Radix
import BehaviorTree.Yaml.Scalar

/-! Quoted scalars. Between single quotes a quote is written twice; between double quotes a backslash
begins an escape, and before a line break it joins the lines. -/

set_option autoImplicit false

namespace BehaviorTree.Yaml

open Text

inductive Quote where
  | single
  | double
  deriving Repr, DecidableEq

def Quote.mark : Quote → Char
  | .single => '\''
  | .double => '"'

namespace Quoted

def named? : Char → Option Char
  | '0' => some '\x00'
  | 'a' => some '\x07'
  | 'b' => some '\x08'
  | 't' | '\t' => some '\t'
  | 'n' => some '\n'
  | 'v' => some '\x0b'
  | 'f' => some '\x0c'
  | 'r' => some '\r'
  | 'e' => some '\x1b'
  | ' ' => some ' '
  | '"' => some '"'
  | '\'' => some '\''
  | '\\' => some '\\'
  | 'N' => some '\u0085'
  | '_' => some '\u00a0'
  | 'L' => some '\u2028'
  | 'P' => some '\u2029'
  | _ => none

def codeLength? : Char → Option Nat
  | 'x' => some 2
  | 'u' => some 4
  | 'U' => some 8
  | _ => none

/-- The character of the escape whose letter begins a text, and how much of the text it takes. -/
def escape? : List Char → Option (Char × Nat)
  | [] => none
  | letter :: rest =>
    match named? letter with
    | some c => some (c, 1)
    | none => do
      let count ← codeLength? letter
      let digits := rest.take count
      if digits.length = count then
        let code ← natural? 16 digits
        let c ← charOfCode? code
        some (c, count + 1)
      else none

/-- Reads up to white space, the closing quote or the end. The flag tells that the word ended in an
escaped line break. -/
def word (quote : Quote) (cursor : Cursor) : Option (List Char × Bool × Cursor) :=
  match found : cursor.rest with
  | [] => some ([], false, cursor)
  | c :: rest =>
    if isSpace c then some ([], false, cursor)
    else if c = quote.mark then
      if quote = .single ∧ rest.head? = some c then
        have := Cursor.length_rest_advanceBy_lt found 1
        (word quote (cursor.advanceBy 2)).map fun (text, last) => (c :: text, last)
      else some ([], false, cursor)
    else if quote = .double ∧ c = '\\' then
      if rest.head?.any isLineBreak then some ([], true, cursor.advance.advanceLine)
      else
        match escape? rest with
        | none => none
        | some (d, count) =>
          have := Cursor.length_rest_advanceBy_lt found count
          (word quote (cursor.advanceBy (count + 1))).map fun (text, last) => (d :: text, last)
    else
      have := Cursor.length_rest_advance_lt found
      (word quote cursor.advance).map fun (text, last) => (c :: text, last)
termination_by cursor.rest.length

def read (quote : Quote) (cursor : Cursor) : Option (List Char × Cursor) :=
  if cursor.atDocumentMark then none
  else do
    let (text, escaped, after) ← word quote cursor
    if after.nextIs (· == quote.mark) then some (text, after.advance)
    else
      let (gap, place) ← Gap.read 0 .none after
      if place.rest.length < cursor.rest.length then
        let (more, last) ← read quote place
        some (text ++ (if escaped then gap.textAfterEscape else gap.text) ++ more, last)
      else none
termination_by cursor.rest.length

end Quoted

end BehaviorTree.Yaml
