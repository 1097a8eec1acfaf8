import BehaviorTree.Condition
import BehaviorTree.Parser

/-! Reading conditions. `!` binds tightest, then `&&`, then `||`; both connectives fold to the
left. An operator that no operand follows, and an argument that is not closed, are left unread. -/

set_option autoImplicit false

namespace BehaviorTree

open Text BehaviorTree.Parser

def identifier : Parser String
  | [] => .stop
  | c :: s =>
    if isNameStart c then .ok (String.ofList (c :: s.takeWhile isNamePart)) (s.dropWhile isNamePart)
    else .stop

namespace Literal

def joinBackslashes : List Char → List Char
  | '\\' :: '\\' :: s => '\\' :: joinBackslashes s
  | c :: s => c :: joinBackslashes s
  | [] => []

def breakLines : List Char → List Char
  | '\\' :: 'n' :: s => '\n' :: breakLines s
  | c :: s => c :: breakLines s
  | [] => []

/-- The meaning of what stands between the quotes. The two replacements are made one after the
other over the whole text, so a doubled backslash before `n` also ends in a line feed. -/
def decode (s : List Char) : List Char := breakLines (joinBackslashes s)

end Literal

def isNotQuote (c : Char) : Bool := c != '"'

def literal : Parser String
  | '"' :: s =>
    match s.dropWhile isNotQuote with
    | _ :: rest => .ok (String.ofList (Literal.decode (s.takeWhile isNotQuote))) rest
    | [] => .stop
  | _ => .stop

namespace Condition

def openParenthesis : Parser Unit := mark isBlank ['('] isSpace

def closeParenthesis : Parser Unit := mark isSpace [')'] isBlank

def argument : Parser String := fun s =>
  (openParenthesis s).bind fun _ rest =>
    (literal rest).bind fun text rest => (closeParenthesis rest).map fun _ => text

def readAtom : Parser Condition := fun s =>
  (identifier s).bind fun name rest => (optional argument rest).map (Condition.atom name)

/-- The closing parenthesis of a nested condition takes no blanks after it. -/
def closeNested : Parser Unit := mark isSpace [')'] fun _ => false

def readFactor (nested : Parser Condition) (s : List Char) : Reply Condition :=
  match start : s.dropWhile isBlank with
  | '!' :: rest =>
    have := length_lt_of_dropWhile start
    (readFactor nested rest).map Condition.not
  | '(' :: rest =>
    (nested (rest.dropWhile isSpace)).bind fun inner rest => (closeNested rest).map fun _ => inner
  | rest => readAtom rest
termination_by s.length

def readChain (operator : List Char) (join : Condition → Condition → Condition)
    (operand : Parser Condition) : Parser Condition := fun s =>
  (operand s).bind fun first rest =>
    (many (after (mark isSpace operator isSpace) operand) rest).map fun others =>
      others.foldl join first

def read (s : List Char) : Reply Condition :=
  readChain ['|', '|'] Condition.or
    (readChain ['&', '&'] Condition.and (readFactor (below s fun rest _ => read rest))) s
termination_by s.length
decreasing_by assumption

/-- The condition that a whole text is, with white space allowed around it. -/
def ofText? (text : String) : Option Condition :=
  match read (text.toList.dropWhile isSpace) with
  | .ok condition rest => if (rest.dropWhile isSpace).isEmpty then some condition else none
  | _ => none

/-- Why a text does not begin with a condition: none can start at this place. -/
structure Expected where
  place : List Char
  deriving Repr, DecidableEq

def ofStart (text : String) : Except Expected (Condition × List Char) :=
  match read text.toList with
  | .ok condition rest => .ok (condition, rest)
  | _ => .error ⟨text.toList.dropWhile isBlank⟩

end Condition

end BehaviorTree
