import BehaviorTree.Script.Entry

/-! Looking at what a registry builds. -/

set_option autoImplicit false

namespace BehaviorTree.Script

inductive CatalogueStep where
  | buildKind (name : String)
  | buildGate (name : String) (argument : Option String)
  deriving Repr

inductive CatalogueAnswer where
  | nothing
  | kind (most : ChildLimit) (least : Nat) (running : Bool) (active : Option Nat)
  | gate (first second : Bool)
  deriving Repr, DecidableEq

def tryGate (gate : Gate Sensor) (context : ContextId) (world : World) : CatalogueAnswer × World :=
  let (gate, world) := gate.activate context world
  let (first, gate, world) := gate.check context world
  let (second, _, world) := gate.check context world
  (.gate first second, world)

def CatalogueStep.run (step : CatalogueStep) (registry : ScriptRegistry) (context : ContextId)
    (world : World) : CatalogueAnswer × World :=
  match step with
  | .buildKind name =>
    match registry.kind? name with
    | none => (.nothing, world)
    | some construct =>
      let (kind, world) := construct world
      (.kind kind.maxChildren kind.minChildren kind.isRunning kind.activeChild, world)
  | .buildGate name argument =>
    match registry.gate? name with
    | none => (.nothing, world)
    | some construct =>
      match construct argument world with
      | (none, world) => (.nothing, world)
      | (some gate, world) => tryGate gate context world

def runCatalogue (registry : ScriptRegistry) (context : ContextId) (world : World) :
    List CatalogueStep → List (CatalogueAnswer × List Event)
  | [] => []
  | step :: rest =>
    let (answer, world) := step.run registry context world
    let (events, world) := world.takeLog
    (answer, events) :: runCatalogue registry context world rest

def catalogue (entries : List Entry) (values : List (String × Seed)) (steps : List CatalogueStep) :
    List (CatalogueAnswer × List Event) :=
  let (clock, world) := World.empty.addClock 0
  let (context, world) := world.addContext clock .recording
  runCatalogue (registryOf entries) context (storeAll context values world) steps

end BehaviorTree.Script
