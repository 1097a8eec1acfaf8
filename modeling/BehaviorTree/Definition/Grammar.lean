import BehaviorTree.Definition
import BehaviorTree.Condition.Grammar
import BehaviorTree.Decimal.Numeral

/-! Reading files of tree definitions. A node is a type, an optional label, optional attributes and
an optional block of children, one node or comment a line. What cannot be read is left over, except
that a cooldown whose exponent has no digits ends the reading of the whole file. -/

set_option autoImplicit false

namespace BehaviorTree

open Text BehaviorTree.Parser

inductive Attribute where
  | when (condition : Condition)
  | cooldown (seconds : Float)
  deriving Repr

/-- An attribute overrides an earlier one of its kind. -/
def Definition.set (definition : Definition) : Attribute → Definition
  | .when condition => { definition with when := some condition }
  | .cooldown seconds => { definition with cooldown := some seconds }

namespace Definition

def colon : Parser Unit := mark isBlank [':'] isBlank

def comma : Parser Unit := mark isSpace [','] isSpace

def equals : Parser Unit := mark isBlank ['='] isBlank

def openBrace : Parser Unit := mark isBlank ['{'] isBlank

def closeBrace : Parser Unit := mark isBlank ['}'] isBlank

def keyword (text : List Char) : Parser Unit := mark (fun _ => false) text fun _ => false

def readWhen : Parser Attribute := fun s =>
  (after (after (keyword ['w', 'h', 'e', 'n']) colon) Condition.read s).map Attribute.when

def readCooldown : Parser Attribute := fun s =>
  (after (after (keyword ['c', 'o', 'o', 'l', 'd', 'o', 'w', 'n']) colon) Decimal.read s).map
    Attribute.cooldown

def readAttribute : Parser Attribute := orElse readWhen readCooldown

def readAttributes : Parser (List Attribute) := fun s =>
  (Condition.openParenthesis s).bind fun _ rest =>
    (separated comma readAttribute rest).bind fun attributes rest =>
      (Condition.closeParenthesis rest).map fun _ => attributes

def readComment : Parser Unit := fun s =>
  match s.dropWhile isBlank with
  | '#' :: rest => .ok () (rest.dropWhile fun c => !isLineBreak c)
  | _ => .stop

def readLineBreaks : Parser Unit := fun s =>
  match s.dropWhile isBlank with
  | c :: rest => if isLineBreak c then .ok () ((rest.dropWhile isLineBreak).dropWhile isBlank) else .stop
  | [] => .stop

def skipLines : Parser (List Unit) := many readLineBreaks

def readName : Parser String := fun s =>
  (identifier (s.dropWhile isBlank)).bind fun name rest => .ok name (rest.dropWhile isBlank)

def readLabel : Parser String := fun s =>
  (literal s).bind fun label rest => .ok label (rest.dropWhile isBlank)

def readLine (node : Parser Definition) : Parser (Option Definition) := fun s =>
  (orElse (fun s => (readComment s).map fun _ => none) (fun s => (node s).map some)
    (s.dropWhile isBlank)).bind fun line rest => (skipLines rest).map fun _ => line

def readChildren (node : Parser Definition) : Parser (List Definition) := fun s =>
  (skipLines s).bind fun _ rest =>
    (many (readLine node) rest).bind fun lines rest =>
      (skipLines rest).map fun _ => lines.filterMap id

def readBlock (node : Parser Definition) : Parser (List Definition) := fun s =>
  (openBrace s).bind fun _ rest =>
    (readChildren node rest).bind fun children rest => (closeBrace rest).map fun _ => children

def read (s : List Char) : Reply Definition :=
  (readName s).bind fun type rest =>
    (optional readLabel rest).bind fun label rest =>
      (optional readAttributes rest).bind fun attributes rest =>
        (optional (readBlock (below s fun rest _ => read rest)) rest).bind fun children rest =>
          (optional readComment rest).map fun _ =>
            (attributes.getD []).foldl Definition.set
              { type, label, when := none, cooldown := none, children := children.getD [] }
termination_by s.length
decreasing_by assumption

end Definition

namespace TreeDefinition

def keyword : Parser Unit := mark isSpace ['t', 'r', 'e', 'e'] isBlank

def read : Parser TreeDefinition := fun s =>
  (keyword s).bind fun _ rest =>
    (Definition.readName rest).bind fun name rest =>
      (Definition.equals rest).bind fun _ rest =>
        (Definition.read rest).map fun root => { name, root }

end TreeDefinition

namespace Source

/-- A comment between trees, with the line feed that ends it. -/
def readComment : Parser Unit := fun s =>
  (Definition.readComment (s.dropWhile isSpace)).bind fun _ rest =>
    match rest with
    | '\n' :: rest => .ok () rest
    | rest => .ok () rest

def readStatement : Parser (Option TreeDefinition) :=
  orElse (fun s => (readComment s).map fun _ => none) fun s => (TreeDefinition.read s).map some

def read : Parser Source := fun s =>
  (many readStatement s).bind fun statements rest =>
    .ok { trees := statements.filterMap id } (rest.dropWhile isSpace)

inductive Malformed where
  /-- The number that begins at this place has an exponent without digits. -/
  | number (place : List Char)
  /-- Nothing could be read. No text leads to it. -/
  | nothing
  deriving Repr, DecidableEq

def ofText (text : String) : Except Malformed (Source × List Char) :=
  match read text.toList with
  | .ok source rest => .ok (source, rest)
  | .fatal place => .error (.number place)
  | .stop => .error .nothing

end Source

end BehaviorTree
