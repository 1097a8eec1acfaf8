import BehaviorTree.Decimal.Numeral

/-! Values on a blackboard. A value is read at a type: as it is stored, or, if it is a text, by
parsing it. -/

set_option autoImplicit false

namespace BehaviorTree

/-- A `cell` is a flag shared by everything that holds its number. A `literal` is a text that was
fixed in advance; it is kept apart from a `text` made at run time. -/
inductive Value where
  | unit
  | bool (value : Bool)
  | cell (number : Nat)
  | text (value : String)
  | literal (value : String)
  | int64 (value : Int)
  | int32 (value : Int)
  | byte (value : Nat)
  | float (value : Float)
  | char (value : Char)
  deriving Repr

inductive ValueType where
  | unit | bool | cell | text | literal | int64 | int32 | byte | float | char
  deriving Repr, DecidableEq

namespace Value

def type : Value → ValueType
  | .unit => .unit
  | .bool _ => .bool
  | .cell _ => .cell
  | .text _ => .text
  | .literal _ => .literal
  | .int64 _ => .int64
  | .int32 _ => .int32
  | .byte _ => .byte
  | .float _ => .float
  | .char _ => .char

def readBool? (text : String) : Option Bool :=
  if text = "true" then some true else if text = "false" then some false else none

def readDigits? (digits : List Char) : Option Nat :=
  if digits.isEmpty || !digits.all Char.isDigit then none else some (Decimal.digitsValue digits)

def readSigned? (bits : Nat) (text : String) : Option Int := do
  let (negative, digits) := Decimal.splitSign text.toList
  let magnitude ← readDigits? digits
  let value : Int := if negative then -magnitude else magnitude
  let bound := Int.ofNat (Nat.pow 2 (bits - 1))
  if -bound ≤ value ∧ value < bound then some value else none

def readUnsigned? (bits : Nat) (text : String) : Option Nat := do
  let digits := match text.toList with
    | '+' :: digits => digits
    | digits => digits
  let value ← readDigits? digits
  if value < Nat.pow 2 bits then some value else none

def readChar? (text : String) : Option Char :=
  match text.toList with
  | [c] => some c
  | _ => none

/-- A text read at a type. Cells, literals and units have no written form. -/
def ofText? (type : ValueType) (text : String) : Option Value :=
  match type with
  | .bool => (readBool? text).map .bool
  | .text => some (.text text)
  | .int64 => (readSigned? 64 text).map .int64
  | .int32 => (readSigned? 32 text).map .int32
  | .byte => (readUnsigned? 8 text).map .byte
  | .float => (Decimal.ofText? text).map .float
  | .char => (readChar? text).map .char
  | .unit | .cell | .literal => none

def as? (value : Value) (type : ValueType) : Option Value :=
  if value.type = type then some value else none

/-- The value if it has the type, or else what its text is at that type. -/
def parsedAs? (value : Value) (type : ValueType) : Option Value :=
  match value.as? type, value with
  | some value, _ => some value
  | none, .text written => ofText? type written
  | none, .literal written => ofText? type written
  | none, _ => none

end Value

end BehaviorTree
