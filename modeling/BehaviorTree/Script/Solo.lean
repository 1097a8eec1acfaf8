import BehaviorTree.Script.Action

/-! One scripted action, called directly and not through a node. -/

set_option autoImplicit false

namespace BehaviorTree.Script

inductive SoloStep where
  | tick
  | clear
  | check
  deriving Repr, DecidableEq

inductive SoloAnswer where
  | progress (progress : Progress)
  | cleared
  | eligible (answer : Bool)
  deriving Repr, DecidableEq

structure SoloResult where
  answer : SoloAnswer
  events : List Event
  after : Lifecycle Performer

def SoloStep.run (step : SoloStep) (name : String) (context : ContextId)
    (lifecycle : Lifecycle Performer) (world : World) : SoloAnswer × Lifecycle Performer × World :=
  match step with
  | .tick =>
    let (progress, lifecycle, world) := lifecycle.tick name context world
    (.progress progress, lifecycle, world)
  | .clear =>
    let (lifecycle, world) := lifecycle.clear name context world
    (.cleared, lifecycle, world)
  | .check =>
    let (answer, lifecycle, world) := lifecycle.check context world
    (.eligible answer, lifecycle, world)

def runSolo (name : String) (context : ContextId) (lifecycle : Lifecycle Performer) (world : World) :
    List SoloStep → List SoloResult
  | [] => []
  | step :: rest =>
    let (answer, lifecycle, world) := step.run name context lifecycle world
    let (events, world) := world.takeLog
    { answer, events, after := lifecycle } :: runSolo name context lifecycle world rest

def solo (plan : Plan) (steps : List SoloStep) : List SoloResult :=
  let (clock, world) := World.empty.addClock 0
  let (context, world) := world.addContext clock .recording
  runSolo plan.label context (Lifecycle.fresh (.planned plan Tally.start)) world steps

end BehaviorTree.Script
