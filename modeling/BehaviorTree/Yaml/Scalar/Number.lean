import BehaviorTree.Decimal.Numeral
import BehaviorTree.Text.Radix
import BehaviorTree.Yaml.Scalar
import BehaviorTree.Yaml.Tag

/-! What scalars mean besides their text: nothing, or a number. Only a plain scalar without a tag is
judged by its form; a tag with the handle `!!` prescribes the form. -/

set_option autoImplicit false

namespace BehaviorTree.Yaml

open Text

namespace Number

def hasNeedlessZero : List Char → Bool
  | '0' :: rest => !rest.isEmpty && rest.all Char.isDigit
  | _ => false

def unsigned? (radix : Nat) : List Char → Option Nat
  | '+' :: digits => natural? radix digits
  | digits => natural? radix digits

/-- An integer: an optional sign, and decimal digits or digits in a radix. A plus may stand before the
digits in a radix, unless the integer is negative. -/
def integer? (s : List Char) : Option (Bool × Nat) :=
  let (negative, unsigned) := Decimal.splitSign s
  let read := if negative then natural? else unsigned?
  let magnitude :=
    match unsigned with
    | '0' :: 'x' :: digits => read 16 digits
    | '0' :: 'o' :: digits => read 8 digits
    | '0' :: 'b' :: digits => read 2 digits
    | digits => if hasNeedlessZero digits then none else natural? 10 digits
  magnitude.map fun magnitude => (negative, magnitude)

/-- There is no negative zero among the integers. -/
def ofInteger (negative : Bool) (magnitude : Nat) : Float :=
  Decimal.toFloat (negative && magnitude != 0) magnitude 0

def fits (bits : Nat) (negative : Bool) (magnitude : Nat) : Bool :=
  if negative then magnitude ≤ Nat.pow 2 (bits - 1) else magnitude < Nat.pow 2 bits

def isInfinityName (s : List Char) : Bool :=
  s == ".inf".toList || s == ".Inf".toList || s == ".INF".toList

/-- Whether an infinity is named, and if so, whether it is the negative one. A single minus may stand
before the name, or any number of pluses. -/
def infinity? (s : List Char) : Option Bool :=
  if isInfinityName (s.dropWhile (· == '+')) then some false
  else
    match s with
    | '-' :: name => if isInfinityName name then some true else none
    | _ => none

def isNanName (s : List Char) : Bool :=
  s == ".nan".toList || s == ".NaN".toList || s == ".NAN".toList

/-- A finite decimal, or a name with a point before it. The name of the value that is no number takes no
sign. -/
def float? (s : List Char) : Option Float :=
  match infinity? s with
  | some negative => some (Decimal.infinity negative)
  | none =>
    if isNanName s then some Decimal.nan
    else if hasNeedlessZero (Decimal.splitSign s).2 then none
    else (Decimal.ofText? (String.ofList s)).filter Float.isFinite

/-- A plain number. An integer of more than 64 bits is refused, unless it has more than 128 and so is
taken for a decimal. -/
def ofPlain? (s : List Char) : Option Float :=
  match integer? s with
  | none => float? s
  | some (negative, magnitude) =>
    if fits 64 negative magnitude then some (ofInteger negative magnitude)
    else if fits 128 negative magnitude then none
    else float? s

def ofDigits? (s : List Char) : Option Float := do
  let (negative, digits) := Decimal.splitSign s
  let magnitude ← natural? 10 digits
  let bound := if negative then Nat.pow 2 63 else Nat.pow 2 63 - 1
  if magnitude ≤ bound then some (ofInteger negative magnitude) else none

end Number

namespace Scalar

def standardTag? : Option Tag → Option String
  | some ⟨"!!", suffix⟩ => some suffix
  | _ => none

def number? (tag : Option Tag) (scalar : Scalar) : Option Float :=
  match tag with
  | none => if scalar.style = .plain then Number.ofPlain? scalar.text.toList else none
  | some _ =>
    match standardTag? tag with
    | some "int" => Number.ofDigits? scalar.text.toList
    | some "float" => Decimal.ofText? scalar.text
    | _ => none

/-- Whether a scalar stands for nothing; no answer if its tag says so and its text does not. -/
def isNull? (tag : Option Tag) (scalar : Scalar) : Option Bool :=
  let named := scalar.text = "~" ∨ scalar.text = "null"
  if scalar.style ≠ .plain then some false
  else
    match tag with
    | none => some named
    | some _ =>
      if standardTag? tag = some "null" then if named then some true else none
      else some false

end Scalar

end BehaviorTree.Yaml
