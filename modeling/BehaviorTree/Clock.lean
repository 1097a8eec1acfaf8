/-! A clock that is moved by hand and never goes back. Trees run with whatever clock their host has, also with
one that goes on by itself; this is the clock of the environments that are built here. -/

set_option autoImplicit false

namespace BehaviorTree

structure Clock where
  now : Float
  deriving Repr

namespace Clock

def advance (clock : Clock) (step : Float) : Clock :=
  if 0 < step then ⟨clock.now + step⟩ else clock

def set (clock : Clock) (time : Float) : Clock :=
  if clock.now < time then ⟨time⟩ else clock

inductive Move where
  | advance (step : Float)
  | set (time : Float)
  deriving Repr

def move (clock : Clock) : Move → Clock
  | .advance step => clock.advance step
  | .set time => clock.set time

/-- The time before the first move and after each one. -/
def readings (clock : Clock) : List Move → List Float
  | [] => [clock.now]
  | move :: rest => clock.now :: (clock.move move).readings rest

end Clock

end BehaviorTree
