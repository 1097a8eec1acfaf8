/-! Cooldowns: a node passes at most once in an interval. A passing check restarts the interval,
whatever the rest of the evaluation decides; a failing one changes nothing. -/

set_option autoImplicit false

namespace BehaviorTree.Cooldown

/-- An interval that is not positive, NaN included, never holds a node back. -/
def ready (interval : Float) (lastPass : Option Float) (now : Float) : Bool :=
  if interval.isNaN || interval <= 0 then true
  else
    match lastPass with
    | some last => !(now - last < interval)
    | none => true

end BehaviorTree.Cooldown
