/-! Decimals rounded to binary64. A decimal is `coefficient * 10 ^ exponent`; the result is the
nearest representable number, of two equally near ones the one with the even last bit, and infinity
past the greatest finite number. The computation is exact: one division of natural numbers. -/

set_option autoImplicit false

namespace BehaviorTree.Decimal

def divideToEven (numerator denominator : Nat) : Nat :=
  let quotient := numerator / denominator
  let double := 2 * (numerator % denominator)
  if double < denominator then quotient
  else if denominator < double then quotient + 1
  else quotient + quotient % 2

/-- `numerator / denominator * 2 ^ (-shift)` as a pair of natural numbers. -/
def scaled (numerator denominator : Nat) (shift : Int) : Nat × Nat :=
  if 0 ≤ shift then (numerator, denominator <<< shift.toNat)
  else (numerator <<< (-shift).toNat, denominator)

/-- The greatest `e` with `2 ^ e ≤ numerator / denominator`, for positive arguments. -/
def binaryExponent (numerator denominator : Nat) : Int :=
  let guess : Int := (numerator.log2 : Int) - denominator.log2
  let (n, d) := scaled numerator denominator guess
  if n < d then guess - 1 else guess

def infinityBits : Nat := 0x7ff <<< 52

/-- The bits nearest to a positive quotient. A significand that rounds up to `2 ^ 53` carries into
the exponent field by the same addition that places it. -/
def quotientBits (numerator denominator : Nat) : Nat :=
  let scale : Int := max (binaryExponent numerator denominator - 52) (-1074)
  let (n, d) := scaled numerator denominator scale
  min infinityBits (((scale + 1074).toNat <<< 52) + divideToEven n d)

def digitCount (n : Nat) : Nat := (Nat.toDigits 10 n).length

/-- The bits nearest to `coefficient * 10 ^ exponent`. Exponents far outside the range of binary64
are answered without computing the power. -/
def magnitudeBits (coefficient : Nat) (exponent : Int) : Nat :=
  let size : Int := digitCount coefficient + exponent
  if coefficient = 0 ∨ size < -330 then 0
  else if 310 < size then infinityBits
  else if 0 ≤ exponent then quotientBits (coefficient * Nat.pow 10 exponent.toNat) 1
  else quotientBits coefficient (Nat.pow 10 (-exponent).toNat)

def toFloat (negative : Bool) (coefficient : Nat) (exponent : Int) : Float :=
  let sign := if negative then 1 <<< 63 else 0
  Float.ofBits (UInt64.ofNat (sign + magnitudeBits coefficient exponent))

def nan : Float := 0.0 / 0.0

def infinity (negative : Bool) : Float := if negative then -1.0 / 0.0 else 1.0 / 0.0

end BehaviorTree.Decimal
