import BehaviorTree.Decimal.Rounding
import BehaviorTree.Parser

/-! Decimal numerals with an optional sign, point and exponent. The reader refuses fatally where an
exponent is begun but has no digits. -/

set_option autoImplicit false

namespace BehaviorTree.Decimal

/-- The digits before and after the point, and the power of ten written after them. -/
structure Numeral where
  negative : Bool
  whole : List Char
  fraction : List Char
  exponent : Int
  deriving Repr, DecidableEq

def digitsValue (digits : List Char) : Nat :=
  digits.foldl (fun value digit => 10 * value + (digit.toNat - '0'.toNat)) 0

def Numeral.toFloat (numeral : Numeral) : Float :=
  Decimal.toFloat numeral.negative (digitsValue (numeral.whole ++ numeral.fraction))
    (numeral.exponent - numeral.fraction.length)

def splitSign : List Char → Bool × List Char
  | '-' :: s => (true, s)
  | '+' :: s => (false, s)
  | s => (false, s)

def splitDigits (s : List Char) : List Char × List Char :=
  (s.takeWhile Char.isDigit, s.dropWhile Char.isDigit)

def splitSignificand (s : List Char) : Option ((List Char × List Char) × List Char) :=
  match splitDigits s with
  | ([], '.' :: rest) =>
    match splitDigits rest with
    | ([], _) => none
    | (fraction, rest) => some (([], fraction), rest)
  | ([], _) => none
  | (whole, '.' :: rest) =>
    let (fraction, rest) := splitDigits rest
    some ((whole, fraction), rest)
  | (whole, rest) => some ((whole, []), rest)

/-- An optional exponent. It is fatal if the letter is there and the digits are not. -/
def readExponent : Parser Int
  | letter :: s =>
    if letter = 'e' ∨ letter = 'E' then
      let (negative, s) := splitSign s
      match splitDigits s with
      | ([], rest) => .fatal rest
      | (digits, rest) =>
        let value : Int := digitsValue digits
        .ok (if negative then -value else value) rest
    else .ok 0 (letter :: s)
  | [] => .ok 0 []

def Numeral.read : Parser Numeral := fun s =>
  let (negative, unsigned) := splitSign s
  match splitSignificand unsigned with
  | none => .stop
  | some ((whole, fraction), rest) =>
    (readExponent rest).map fun exponent => { negative, whole, fraction, exponent }

def wordInAnyCase? : List Char → List Char → Option (List Char)
  | [], s => some s
  | _ :: _, [] => none
  | c :: cs, d :: s => if c = d.toLower then wordInAnyCase? cs s else none

/-- A number of a definition: a numeral, or `nan` or `inf` without a sign. A malformed exponent is
fatal at the number's first character. -/
def read : Parser Float := fun s =>
  match Numeral.read s with
  | .ok numeral rest => .ok numeral.toFloat rest
  | .fatal _ => .fatal s
  | .stop =>
    match wordInAnyCase? ['n', 'a', 'n'] s, wordInAnyCase? ['i', 'n', 'f'] s with
    | some rest, _ => .ok nan rest
    | none, some rest => .ok (infinity false) rest
    | none, none => .stop

/-- A number that is a whole text: a numeral, or a possibly signed `nan`, `inf` or `infinity` in
any case. -/
def ofText? (text : String) : Option Float :=
  match Numeral.read text.toList with
  | .ok numeral [] => some numeral.toFloat
  | _ =>
    let (negative, unsigned) := splitSign text.toList
    let name := unsigned.map Char.toLower
    if name = "nan".toList then some nan
    else if name = "inf".toList ∨ name = "infinity".toList then some (infinity negative)
    else none

end BehaviorTree.Decimal
