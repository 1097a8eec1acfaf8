/-! How many children a node kind takes. The order is partial: no limit is below or above itself,
and the absence of a limit is not even comparable with itself. -/

set_option autoImplicit false

namespace BehaviorTree

inductive ChildLimit where
  | finite (count : Nat)
  | infinite
  deriving Repr, DecidableEq

namespace ChildLimit

def compare? : ChildLimit → ChildLimit → Option Ordering
  | .finite left, .finite right => some (compare left right)
  | .finite _, .infinite => some .lt
  | .infinite, .finite _ => some .gt
  | .infinite, .infinite => none

def lt (left right : ChildLimit) : Bool := left.compare? right == some .lt

def le (left right : ChildLimit) : Bool := left.lt right || left.compare? right == some .eq

def display : ChildLimit → String
  | .finite count => "Finite(" ++ toString count ++ ")"
  | .infinite => "Infinite"

end ChildLimit

end BehaviorTree
