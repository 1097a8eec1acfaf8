import BehaviorTree.Decimal.Rounding

/-! The fewest digits that read back as a given binary64 number, and the text made of them. Every
real number in a closed or open interval around the number rounds to it; for one, two, … up to
seventeen digits the two neighbours on that decimal grid are tried, and the first grid with a hit
wins, of two hits the nearer. -/

set_option autoImplicit false

namespace BehaviorTree.Decimal

/-- A positive number as `0.digits * 10 ^ point`. -/
structure Digits where
  digits : List Char
  point : Int
  deriving Repr, DecidableEq

/-- The reals that round to `significand * 2 ^ scale`, in quarters of that unit. Below a power of
two the neighbour is nearer by half. The ends belong to it if the significand is even. -/
structure Interval where
  low : Nat
  value : Nat
  high : Nat
  closed : Bool
  scale : Int

def Interval.ofBits (bits : Nat) : Interval :=
  let field := bits >>> 52 % 2048
  let part := bits % (1 <<< 52)
  let significand := if field = 0 then part else part + (1 <<< 52)
  let scale : Int := (max field 1 : Nat) - 1075
  { low := if part = 0 ∧ 1 < field then 4 * significand - 1 else 4 * significand - 2
    value := 4 * significand
    high := 4 * significand + 2
    closed := significand % 2 = 0
    scale := scale - 2 }

/-- A grid point `count * 10 ^ exponent` compared with a quarter count. Both are brought to natural
numbers by the same factor. -/
def Interval.onGrid (interval : Interval) (exponent : Int) : Nat × Nat :=
  (Nat.pow 2 interval.scale.toNat * Nat.pow 10 (-exponent).toNat,
    Nat.pow 2 (-interval.scale).toNat * Nat.pow 10 exponent.toNat)

/-- The exponent `e` with `10 ^ (e - 1) ≤ value < 10 ^ e`. -/
def Interval.decimalPoint (interval : Interval) : Int :=
  let (n, d) := (interval.value * Nat.pow 2 interval.scale.toNat, Nat.pow 2 (-interval.scale).toNat)
  let guess : Int := (digitCount n : Int) - digitCount d
  let below := if 0 ≤ guess then n < d * Nat.pow 10 guess.toNat else n * Nat.pow 10 (-guess).toNat < d
  if below then guess else guess + 1

/-- The nearest hit on the grid of a given number of digits, of two equally near ones the greater. -/
def Interval.hit? (interval : Interval) (point : Int) (count : Nat) : Option Nat :=
  let (factor, step) := interval.onGrid (point - count)
  let low := interval.low * factor
  let value := interval.value * factor
  let high := interval.high * factor
  let inside (x : Nat) : Bool := low < x && x < high || interval.closed && (x == low || x == high)
  let down := value / step
  let up := down + 1
  let hitDown := 0 < down && inside (down * step)
  let hitUp := inside (up * step)
  if hitDown && (!hitUp || value - down * step < up * step - value) then some down
  else if hitUp then some up
  else none

def dropTrailingZeros (digits : List Char) : List Char :=
  (digits.reverse.dropWhile (· == '0')).reverse

def Digits.ofBits (bits : Nat) : Digits :=
  let interval := Interval.ofBits bits
  let point := interval.decimalPoint
  match (List.range 17).findSome? fun n => (interval.hit? point (n + 1)).map fun hit => (n + 1, hit) with
  | some (count, hit) =>
    let digits := Nat.toDigits 10 hit
    { digits := dropTrailingZeros digits, point := point + (digits.length - count : Int) }
  | none => { digits := ['0'], point := 1 }

def zeros (count : Int) : List Char := List.replicate count.toNat '0'

/-- Positional from `0.0001` up to below ten quadrillion, always with a digit after the point;
scientific elsewhere, with a point only if digits follow it. -/
def Digits.layout (number : Digits) : List Char :=
  let digits := number.digits
  let point := number.point
  if -4 < point ∧ point ≤ 16 then
    if point ≤ 0 then '0' :: '.' :: zeros (-point) ++ digits
    else if (digits.length : Int) ≤ point then digits ++ zeros (point - digits.length) ++ ['.', '0']
    else digits.take point.toNat ++ '.' :: digits.drop point.toNat
  else
    let rest := digits.drop 1
    digits.take 1 ++ (if rest.isEmpty then [] else '.' :: rest) ++ 'e' :: (toString (point - 1)).toList

def display (number : Float) : String :=
  if number.isNaN then "NaN"
  else
    let bits := number.toBits.toNat
    let sign := if bits >>> 63 = 1 then ['-'] else []
    let magnitude := bits % (1 <<< 63)
    let text :=
      if magnitude = infinityBits then ['i', 'n', 'f']
      else if magnitude = 0 then ['0', '.', '0']
      else (Digits.ofBits magnitude).layout
    String.ofList (sign ++ text)

end BehaviorTree.Decimal
