import BehaviorTree.Node
import BehaviorTree.World

/-! Scripted actions and probes. A scripted action writes down each of its hooks, then carries out
the effects that its script ties to the hook, and answers from a list. -/

set_option autoImplicit false

namespace BehaviorTree.Script

def answerAt {α : Type} (answers : List α) (position : Nat) (otherwise : α) : α :=
  match answers[position]? with
  | some answer => answer
  | none => answers.getLast?.getD otherwise

/-- A value to be stored. Each time it is stored, a cell is a new one. -/
inductive Seed where
  | fixed (value : Value)
  | cell (content : Bool)
  deriving Repr

def Seed.plant (seed : Seed) (world : World) : Value × World :=
  match seed with
  | .fixed value => (value, world)
  | .cell content => world.addCell content

def store (context : ContextId) (key : String) (seed : Seed) (world : World) : World :=
  let (value, world) := seed.plant world
  world.set context key value

def storeAll (context : ContextId) (entries : List (String × Seed)) (world : World) : World :=
  entries.foldl (fun world (key, seed) => store context key seed world) world

inductive Effect where
  | set (key : String) (seed : Seed)
  | advance (step : Float) (context : ContextId)
  | showTime
  deriving Repr

def Effect.run (effect : Effect) (context : ContextId) (world : World) : World :=
  match effect with
  | .set key seed => store context key seed world
  | .advance step moved =>
    if moved < world.steered then world.moveClock moved fun clock => clock.advance step else world
  | .showTime => world.write (.time (world.now context))

/-- With `ticks`, an action ends at that many executions after it was entered; without, its
executions answer `results`. -/
structure Plan where
  label : String
  results : List Progress
  ticks : Option Nat
  checks : List Bool
  effects : List (Hook × Effect)
  deriving Repr

namespace Plan

def runEffects (plan : Plan) (hook : Hook) (context : ContextId) (world : World) : World :=
  (plan.effects.filter fun entry => entry.1 = hook).foldl
    (fun world entry => entry.2.run context world) world

def perform (plan : Plan) (hook : Hook) (context : ContextId) (world : World) : World :=
  plan.runEffects hook context (world.write (.hook hook plan.label))

end Plan

structure Tally where
  checked : Nat
  executed : Nat
  left : Nat
  deriving Repr, DecidableEq

def Tally.start : Tally := ⟨0, 0, 0⟩

/-- An action that follows a plan in every hook, one that only executes, and one that does nothing
and never ends. -/
inductive Performer where
  | planned (plan : Plan) (tally : Tally)
  | callback (plan : Plan) (tally : Tally)
  | idle
  deriving Repr

namespace Performer

def executed : Performer → Nat
  | .planned _ tally => tally.executed
  | .callback _ tally => tally.executed
  | .idle => 0

def activate (performer : Performer) (context : ContextId) (world : World) : Performer × World :=
  match performer with
  | .planned plan tally => (.planned plan tally, plan.perform .activate context world)
  | performer => (performer, world)

/-- An action without planned checks is always eligible and does not write the check down. -/
def check (performer : Performer) (context : ContextId) (world : World) : Bool × Performer × World :=
  match performer with
  | .planned plan tally =>
    if plan.checks.isEmpty then (true, .planned plan tally, world)
    else
      (answerAt plan.checks tally.checked true,
        .planned plan { tally with checked := tally.checked + 1 }, plan.perform .check context world)
  | performer => (true, performer, world)

def enter (performer : Performer) (context : ContextId) (world : World) : Performer × World :=
  match performer with
  | .planned plan tally =>
    (.planned plan { tally with left := plan.ticks.getD 0 }, plan.perform .enter context world)
  | performer => (performer, world)

def exit (performer : Performer) (context : ContextId) (world : World) : Performer × World :=
  match performer with
  | .planned plan tally => (.planned plan tally, plan.perform .exit context world)
  | performer => (performer, world)

def execute (performer : Performer) (context : ContextId) (world : World) :
    Progress × Performer × World :=
  match performer with
  | .planned plan tally =>
    let left := tally.left - 1
    let progress :=
      if plan.ticks.isSome then if left = 0 then .ended else .running
      else answerAt plan.results tally.executed .ended
    (progress, .planned plan { tally with executed := tally.executed + 1, left },
      plan.perform .execute context world)
  | .callback plan tally =>
    (answerAt plan.results tally.executed .ended,
      .callback plan { tally with executed := tally.executed + 1 }, plan.perform .execute context world)
  | .idle => (.running, .idle, world)

instance : Action World Performer where
  activate := activate
  check := check
  enter := enter
  execute := execute
  exit := exit

end Performer

structure Sensor where
  label : String
  answers : List Bool
  announced : Bool
  asked : Nat
  deriving Repr, DecidableEq

namespace Sensor

instance : Probe World Sensor where
  activate sensor _ world :=
    (sensor, if sensor.announced then world.write (.gateActivated sensor.label) else world)
  check sensor _ world :=
    (answerAt sensor.answers sensor.asked true, { sensor with asked := sensor.asked + 1 },
      world.write (.gateChecked sensor.label))

end Sensor

end BehaviorTree.Script
